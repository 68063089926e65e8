-- The trees that come out of the parser. Every node of a parsed program is well formed, and the
-- names that it reads stand at places of their own, in the order of the tokens.
import ScriptLang.Parser.Program
import ScriptLang.Proofs.Node
import ScriptLang.Proofs.SourceTokens

namespace ScriptLang

/-! ## Well-formed nodes -/

def Expr.isAssign : Expr → Bool
  | .assign _ _ _ _ => true
  | _ => false

def Expr.isIndex : Expr → Bool
  | .index _ _ _ => true
  | _ => false

/-- Whether a loop may start with a statement. -/
def Statement.isInitializer : Statement → Bool
  | .var _ _ _ => true
  | .assignment _ _ _ _ => true
  | .expression _ _ => true
  | _ => false

/-- The names of a function are names, and no parameter without a default stands behind one that
has a default. -/
structure FunctionLiteral.WellFormed (literal : FunctionLiteral) : Prop where
  name : ∀ name ∈ literal.name, IsName name
  parameters : ∀ p ∈ literal.parameters, IsName p.name
  order : literal.parameters.Pairwise fun p q => q.isRequired = true → p.isRequired = true

/-- What the grammar promises of a node, its parts left out. -/
def Node.WellFormed : Node → Prop
  | expr (.integer value _) => 0 ≤ value.toInt
  | expr (.string value _) => '"' ∉ value.toList
  | expr (.identifier name _) => IsName name
  | expr (.step _ name _) => IsName name
  | expr (.scopeAccess name branch _) => IsName name ∧ IsName branch
  | expr (.methodCall _ method _ _) => IsName method
  | expr (.assign target _ _ _) => Parser.isTarget target = true
  | expr (.loop (some initializer) _ _ _ _) => initializer.isInitializer = true
  | expr (.function literal _) => literal.WellFormed
  | statement (.var name _ _) => IsName name
  | statement (.assignment target _ _ _) => Parser.isTarget target = true
  | statement (.delete target _) => target.isIndex = true
  | statement (.enum name bs _) =>
    IsName name ∧ (∀ b ∈ bs, IsName b.1) ∧ (bs.map Prod.fst).Nodup
  | statement (.expression e _) => e.isAssign = false
  | _ => True

/-! ## Nodes and the places they are read from -/

/-- Nodes that are read one after the other from tokens at the places `used`. -/
structure Parsed (bs : List Node) (used : List Position) : Prop where
  wellFormed : ∀ b ∈ bs, b.Every Node.WellFormed
  places : ((bs.map Node.reads).flatten.map Prod.snd).Sublist used

namespace Parsed

variable {a : Node} {bs cs : List Node} {used more : List Position}

theorem nil (used : List Position) : Parsed [] used := ⟨by simp, by simp⟩

theorem append (hb : Parsed bs used) (hc : Parsed cs more) : Parsed (bs ++ cs) (used ++ more) := by
  constructor
  · exact List.forall_mem_append.mpr ⟨hb.wellFormed, hc.wellFormed⟩
  · simpa using hb.places.append hc.places

theorem mono (h : Parsed bs used) (hu : used.Sublist more) : Parsed bs more :=
  ⟨h.wellFormed, h.places.trans hu⟩

theorem skip (h : Parsed bs more) (used : List Position) : Parsed bs (used ++ more) :=
  h.mono (List.sublist_append_right used more)

theorem keep (h : Parsed bs used) (more : List Position) : Parsed bs (used ++ more) :=
  h.mono (List.sublist_append_left used more)

/-- A node without parts. -/
theorem leaf (hw : a.WellFormed) (hc : a.children = [])
    (hr : (a.reads.map Prod.snd).Sublist used) : Parsed [a] used := by
  constructor
  · simpa [Node.every_iff (a := a), hc] using hw
  · simpa using hr

/-- A node is read from where its parts are read. -/
theorem node {b : Node} (hw : a.WellFormed) (hc : a.children = b :: bs)
    (h : Parsed (b :: bs) used) : Parsed [a] used := by
  have hreads : a.reads = (a.children.map Node.reads).flatten := by
    unfold Node.children at hc ⊢
    rcases a.parts_cases .start with ⟨hparts, -⟩ | ⟨hreads, -⟩
    · rw [hparts] at hc
      cases hc
    · rw [hreads, List.map_map]
      rfl
  constructor
  · intro d hd
    rw [List.mem_singleton.mp hd, Node.every_iff, hc]
    exact ⟨hw, h.wellFormed⟩
  · simpa [hreads, hc] using h.places

theorem exprs_nil (used : List Position) : Parsed [.exprs []] used :=
  .leaf trivial rfl (List.nil_sublist used)

theorem exprs_cons {e : Expr} {es : List Expr} (he : Parsed [.expr e] used)
    (hes : Parsed [.exprs es] more) : Parsed [.exprs (e :: es)] (used ++ more) :=
  .node trivial rfl (he.append hes)

theorem statements_nil (used : List Position) : Parsed [.statements []] used :=
  .leaf trivial rfl (List.nil_sublist used)

theorem statements_cons {s : Statement} {ss : List Statement} (hs : Parsed [.statement s] used)
    (hss : Parsed [.statements ss] more) : Parsed [.statements (s :: ss)] (used ++ more) :=
  .node trivial rfl (hs.append hss)

theorem exprs_one {e : Expr} (he : Parsed [.expr e] used) : Parsed [.exprs [e]] used := by
  have h := exprs_cons he (exprs_nil [])
  rwa [List.append_nil] at h

theorem statements_one {s : Statement} (hs : Parsed [.statement s] used) :
    Parsed [.statements [s]] used := by
  have h := statements_cons hs (statements_nil [])
  rwa [List.append_nil] at h

end Parsed

namespace Parser

/-! ## Parsers -/

/-- A parser that gives, from tokens of a source text, results with a property that may depend on
the places of the tokens that it takes. -/
def Yields {α : Type} (x : Parser α) (Q : α → List Position → Prop) : Prop :=
  ∀ ts, (∀ t ∈ ts, t.Lexed) → match x ts with
    | .ok a rest => ∃ used, ts = used ++ rest ∧ Q a (used.map Token.position)
    | .error _ rest => rest <:+ ts

namespace Yields

variable {α β : Type} {x : Parser α} {P Q : α → List Position → Prop}

theorem mono (h : Yields x P) (hpq : ∀ a used, P a used → Q a used) : Yields x Q := by
  intro ts hts
  have hx := h ts hts
  split
  · rename_i a rest heq
    rw [heq] at hx
    obtain ⟨used, hused, hp⟩ := hx
    exact ⟨used, hused, hpq a _ hp⟩
  · rename_i heq
    rw [heq] at hx
    exact hx

theorem pure {a : α} (h : Q a []) : Yields (pure a) Q := fun _ _ => ⟨[], rfl, h⟩

theorem bind {f : α → Parser β} {R : β → List Position → Prop} (hx : Yields x P)
    (hf : ∀ a used, P a used → Yields (f a) fun b more => R b (used ++ more)) :
    Yields (x >>= f) R := by
  intro ts hts
  have hts' := hx ts hts
  change match EStateM.bind x f ts with
    | .ok b rest => ∃ used, ts = used ++ rest ∧ R b (used.map Token.position)
    | .error _ rest => rest <:+ ts
  unfold EStateM.bind
  cases hr : x ts with
  | error e rest =>
    rw [hr] at hts'
    exact hts'
  | ok a rest =>
    rw [hr] at hts'
    obtain ⟨used, rfl, hp⟩ := hts'
    have hrest := hf a _ hp rest fun t ht => hts t (List.mem_append_right _ ht)
    dsimp only
    split
    · rename_i b rest' heq
      rw [heq] at hrest
      obtain ⟨more, rfl, hq⟩ := hrest
      exact ⟨used ++ more, by simp, by simpa using hq⟩
    · rename_i heq
      rw [heq] at hrest
      exact hrest.trans (List.suffix_append used rest)

theorem failAt (position : Position) (cause : ParseCause) : Yields (failAt position cause) Q :=
  fun ts _ => List.suffix_refl ts

theorem failUnexpected (expected : TokenKind) : Yields (failUnexpected expected) Q :=
  fun ts _ => List.suffix_refl ts

/-- Nothing comes behind a parser that never gives a result. -/
theorem fails_bind {f : α → Parser β} {R : β → List Position → Prop}
    (h : Yields x fun _ _ => False) : Yields (x >>= f) R :=
  h.bind fun _ _ hfalse => hfalse.elim

theorem outOfTurns : Yields outOfTurns Q := fun ts _ => List.suffix_refl ts

theorem peekKind : Yields peekKind fun _ _ => True := fun _ _ => ⟨[], rfl, trivial⟩

theorem peekPosition : Yields peekPosition fun _ _ => True := fun _ _ => ⟨[], rfl, trivial⟩

theorem skip : Yields skip fun _ _ => True :=
  fun ts _ => ⟨ts.take 1, (List.take_append_drop 1 ts).symm, trivial⟩

theorem skipSemicolons : Yields skipSemicolons fun _ _ => True :=
  fun ts _ => ⟨ts.takeWhile _, (List.takeWhile_append_dropWhile).symm, trivial⟩

theorem take? (kind : TokenKind) :
    Yields (take? kind) fun o _ => ∀ t, o = some t → t.kind = kind ∧ t.Lexed := by
  intro ts hts
  cases ts with
  | nil => exact ⟨[], rfl, nofun⟩
  | cons t ts =>
    simp only [Parser.take?]
    by_cases hk : t.kind = kind
    · rw [if_pos hk]
      refine ⟨[t], rfl, ?_⟩
      rintro _ ⟨⟩
      exact ⟨hk, hts t List.mem_cons_self⟩
    · rw [if_neg hk]
      exact ⟨[], rfl, nofun⟩

theorem eat (kind : TokenKind) : Yields (eat kind) fun _ _ => True :=
  (take? kind).bind fun _ _ _ => .pure trivial

theorem expect (kind : TokenKind) :
    Yields (expect kind) fun t _ => t.kind = kind ∧ t.Lexed := by
  refine (take? kind).bind fun o _ ho => ?_
  cases o with
  | none => exact .failUnexpected kind
  | some t => exact .pure (ho t rfl)

theorem identifier : Yields identifier fun name _ => IsName name := by
  refine (expect .name).bind fun t _ ht => .pure ?_
  exact ht.2.name ht.1

/-- Items one after the other, with commas between them. -/
theorem commaList {R : List α → List Position → Prop} (hx : Yields x P)
    (hnil : ∀ used, R [] used)
    (hcons : ∀ {a as used more}, P a used → R as more → R (a :: as) (used ++ more))
    (hskip : ∀ {as more} used, R as more → R as (used ++ more)) (closing : TokenKind)
    (turns : Nat) : Yields (commaList x closing turns) R := by
  induction turns with
  | zero => exact .outOfTurns
  | succ turns ih =>
    refine (eat closing).bind fun closed _ _ => ?_
    split
    · exact .pure (hnil _)
    · refine hx.bind fun first used hfirst => (eat .comma).bind fun more _ _ => ?_
      split
      · refine ih.bind fun rest _ hrest => .pure ?_
        rw [List.append_nil]
        exact hskip _ (hcons hfirst (hskip _ hrest))
      · refine (expect closing).bind fun _ _ _ => .pure ?_
        exact hskip _ (hcons hfirst (hnil _))

end Yields

/-! ## Statements -/

/-- A parser of expressions that gives well-formed trees. -/
def Trusted (expr : ExprParser) : Prop :=
  ∀ level, Yields (expr level) fun e used => Parsed [.expr e] used

variable {expr : ExprParser}

theorem yields_varStatement (he : Trusted expr) :
    Yields (varStatement expr) fun s used =>
      s.isInitializer = true ∧ Parsed [.statement s] used := by
  refine (Yields.expect .varWord).bind fun keyword _ _ => ?_
  refine Yields.identifier.bind fun name _ hname => ?_
  refine (Yields.expect .assign).bind fun _ _ _ => ?_
  refine (he .lowest).bind fun value _ hvalue => .pure ⟨rfl, ?_⟩
  exact .node hname rfl (.skip (.skip (.skip (.keep hvalue _) _) _) _)

/-- An assignment as a statement has the parts that it has as an expression. -/
theorem parsed_assignment {target value : Expr} {op : Option BinaryOp} {position : Position}
    {used : List Position} (h : Parsed [.expr (.assign target op value position)] used) :
    Parsed [.statement (.assignment target op value position)] used := by
  have hw := Node.every_iff.mp (h.wellFormed _ List.mem_cons_self)
  have hstatement : (Node.statement (.assignment target op value position)).Every
      Node.WellFormed := .intro hw.1 hw.2
  exact ⟨by simpa using hstatement, h.places⟩

theorem isAssign_eq_false {e : Expr}
    (h : ∀ target op value position, e ≠ .assign target op value position) :
    e.isAssign = false := by
  cases e with
  | assign target op value position => exact absurd rfl (h target op value position)
  | _ => rfl

theorem yields_expressionStatement (he : Trusted expr) :
    Yields (expressionStatement expr) fun s used =>
      s.isInitializer = true ∧ Parsed [.statement s] used := by
  refine Yields.peekPosition.bind fun position _ _ => (he .lowest).bind fun e _ hparsed => ?_
  split
  · exact .pure ⟨rfl, .skip (.keep (parsed_assignment hparsed) _) _⟩
  · rename_i hnot
    refine .pure ⟨rfl, .node (isAssign_eq_false hnot) rfl (.skip (.keep hparsed _) _)⟩

theorem yields_returnStatement (he : Trusted expr) :
    Yields (returnStatement expr) fun s used => Parsed [.statement s] used := by
  refine (Yields.expect .returnWord).bind fun keyword _ _ => ?_
  refine Yields.peekKind.bind fun kind _ _ => ?_
  split
  · exact .pure (.node trivial rfl (.exprs_nil _))
  · exact .pure (.node trivial rfl (.exprs_nil _))
  · exact .pure (.node trivial rfl (.exprs_nil _))
  · refine (he .lowest).bind fun value _ hvalue => .pure (.node trivial rfl ?_)
    exact .skip (.skip (.keep (.exprs_one hvalue) _) _) _

theorem yields_deleteStatement (he : Trusted expr) :
    Yields (deleteStatement expr) fun s used => Parsed [.statement s] used := by
  refine (Yields.expect .deleteWord).bind fun keyword _ _ => ?_
  refine (he .lowest).bind fun target _ htarget => ?_
  split
  · exact .pure (.node rfl rfl (.skip (.keep htarget _) _))
  · exact .failAt _ _

theorem parsed_branches_cons {b : String × Expr} {bs : List (String × Expr)}
    {used more : List Position} (hb : Parsed [.expr b.2] used)
    (hbs : Parsed [.branches bs] more) : Parsed [.branches (b :: bs)] (used ++ more) :=
  .node trivial rfl (hb.append hbs)

/-- The branches of an enum have names of their own, different from the names before them. -/
theorem yields_enumBranches (he : Trusted expr) (name : String) (seen : List String)
    (turns : Nat) :
    Yields (enumBranches expr name seen turns) fun bs used =>
      Parsed [.branches bs] used ∧ (∀ b ∈ bs, IsName b.1) ∧ (bs.map Prod.fst).Nodup ∧
        ∀ b ∈ bs, b.1 ∉ seen := by
  induction turns generalizing seen with
  | zero => exact .outOfTurns
  | succ turns ih =>
    refine (Yields.eat .rightBrace).bind fun closed _ _ => ?_
    split
    · exact .pure ⟨.leaf trivial rfl (List.nil_sublist _), by simp, by simp, by simp⟩
    · refine (Yields.expect .caseWord).bind fun _ _ _ => ?_
      refine Yields.peekPosition.bind fun position _ _ => ?_
      refine Yields.identifier.bind fun branch _ hbranch => ?_
      split
      · exact .fails_bind (.failAt position _)
      · rename_i hseen
        have hnew : branch ∉ seen := by simpa using hseen
        refine (Yields.expect .colon).bind fun _ _ _ => ?_
        refine (he .lowest).bind fun value _ hvalue => ?_
        refine (Yields.eat .semicolon).bind fun _ _ _ => ?_
        refine (ih (branch :: seen)).bind fun bs _ hbs => .pure ?_
        obtain ⟨hparsed, hnames, hnodup, hapart⟩ := hbs
        refine ⟨?_, List.forall_mem_cons.mpr ⟨hbranch, hnames⟩, ?_, ?_⟩
        · rw [List.append_nil]
          refine .skip (.skip (.skip (.skip (.skip ?_ _) _) _) _) _
          exact parsed_branches_cons hvalue (.skip hparsed _)
        · refine List.nodup_cons.mpr ⟨fun hmem => ?_, hnodup⟩
          obtain ⟨b, hb, heq⟩ := List.mem_map.mp hmem
          exact hapart b hb (heq ▸ List.mem_cons_self)
        · refine List.forall_mem_cons.mpr ⟨hnew, fun b hb hmem => ?_⟩
          exact hapart b hb (List.mem_cons_of_mem _ hmem)

theorem yields_enumStatement (he : Trusted expr) (turns : Nat) :
    Yields (enumStatement turns expr) fun s used => Parsed [.statement s] used := by
  refine (Yields.expect .enumWord).bind fun keyword _ _ => ?_
  refine Yields.identifier.bind fun name _ hname => ?_
  refine (Yields.expect .leftBrace).bind fun _ _ _ => ?_
  refine (yields_enumBranches he name [] turns).bind fun bs _ hbs => .pure ?_
  obtain ⟨hparsed, hnames, hnodup, -⟩ := hbs
  exact .node ⟨hname, hnames, hnodup⟩ rfl (.skip (.skip (.skip (.keep hparsed _) _) _) _)

theorem yields_bareStatement (he : Trusted expr) (turns : Nat) :
    Yields (bareStatement turns expr) fun s used => Parsed [.statement s] used := by
  refine Yields.peekKind.bind fun kind _ _ => ?_
  split
  · exact (yields_varStatement he).mono fun _ _ h => .skip h.2 _
  · exact (yields_returnStatement he).mono fun _ _ h => .skip h _
  · refine Yields.peekPosition.bind fun position _ _ => Yields.skip.bind fun _ _ _ => .pure ?_
    exact .leaf trivial rfl (List.nil_sublist _)
  · exact (yields_deleteStatement he).mono fun _ _ h => .skip h _
  · exact (yields_enumStatement he turns).mono fun _ _ h => .skip h _
  · exact (yields_expressionStatement he).mono fun _ _ h => .skip h.2 _

theorem yields_statement (he : Trusted expr) (turns : Nat) :
    Yields (statement turns expr) fun s used => Parsed [.statement s] used := by
  refine (yields_bareStatement he turns).bind fun s _ hs => ?_
  exact (Yields.eat .semicolon).bind fun _ _ _ => .pure (.keep hs _)

theorem yields_blockStatements (he : Trusted expr) (turns left : Nat) :
    Yields (blockStatements turns expr left) fun ss used => Parsed [.statements ss] used := by
  induction left with
  | zero => exact .outOfTurns
  | succ left ih =>
    refine Yields.skipSemicolons.bind fun _ _ _ => ?_
    refine (Yields.eat .rightBrace).bind fun closed _ _ => ?_
    split
    · exact .pure (.statements_nil _)
    · refine Yields.peekKind.bind fun kind _ _ => ?_
      split
      · exact .fails_bind (.failUnexpected _)
      · refine (yields_statement he turns).bind fun s _ hs => ih.bind fun ss _ hss => .pure ?_
        rw [List.append_nil]
        exact .skip (.skip (.skip (.statements_cons hs hss) _) _) _

theorem yields_block (he : Trusted expr) (turns : Nat) :
    Yields (block turns expr) fun b used => Parsed [.statements b.statements] used := by
  refine (Yields.expect .leftBrace).bind fun brace _ _ => ?_
  refine (yields_blockStatements he turns turns).bind fun ss _ hss => .pure ?_
  exact .skip (.keep hss _) _

/-! ## Expressions that start with a token of their own -/

/-- A conditional is no assignment, so it can be a statement in the block of an `else`. -/
theorem yields_conditional (he : Trusted expr) (turns left : Nat) (position : Position) :
    Yields (conditional turns expr left position) fun e used =>
      e.isAssign = false ∧ Parsed [.expr e] used := by
  induction left generalizing position with
  | zero => exact .outOfTurns
  | succ left ih =>
    refine (he .lowest).bind fun condition _ hc => ?_
    refine (yields_block he turns).bind fun consequence _ ht => ?_
    refine (Yields.eat .elseWord).bind fun other _ _ => ?_
    split
    · refine (Yields.take? .ifWord).bind fun o _ _ => ?_
      cases o with
      | some keyword =>
        refine (ih keyword.position).bind fun nested _ hn => .pure ⟨rfl, ?_⟩
        have hstatement : Parsed [.statement (.expression nested keyword.position)] _ :=
          .node hn.1 rfl hn.2
        refine .node trivial rfl (hc.append (ht.append (.skip (.skip (.keep ?_ _) _) _)))
        exact .statements_one hstatement
      | none =>
        refine (yields_block he turns).bind fun alternative _ ha => .pure ⟨rfl, ?_⟩
        exact .node trivial rfl (hc.append (ht.append (.skip (.skip (.keep ha _) _) _)))
    · refine .pure ⟨rfl, .node trivial rfl (hc.append (ht.append ?_))⟩
      exact .statements_nil _

theorem yields_loopInitializer (he : Trusted expr) :
    Yields (loopInitializer expr) fun o used =>
      (∀ s, o = some s → s.isInitializer = true) ∧ Parsed [.statements o.toList] used := by
  refine Yields.peekKind.bind fun kind _ _ => ?_
  split
  · exact .pure ⟨nofun, .statements_nil _⟩
  · refine (yields_varStatement he).bind fun s _ hs => .pure ⟨?_, ?_⟩
    · rintro _ ⟨⟩
      exact hs.1
    · exact .skip (.keep (.statements_one hs.2) _) _
  · refine (yields_expressionStatement he).bind fun s _ hs => .pure ⟨?_, ?_⟩
    · rintro _ ⟨⟩
      exact hs.1
    · exact .skip (.keep (.statements_one hs.2) _) _

theorem yields_clause (he : Trusted expr) (closing : TokenKind) :
    Yields (clause expr closing) fun o used => Parsed [.exprs o.toList] used := by
  refine Yields.peekKind.bind fun kind _ _ => ?_
  split
  · exact .pure (.exprs_nil _)
  · exact (he .lowest).bind fun e _ hparsed => .pure (.skip (.keep (.exprs_one hparsed) _) _)

theorem yields_loop (he : Trusted expr) (turns : Nat) (position : Position) :
    Yields (loop turns expr position) fun e used => Parsed [.expr e] used := by
  refine (Yields.expect .leftParen).bind fun _ _ _ => ?_
  refine (yields_loopInitializer he).bind fun initializer _ hi => ?_
  refine (Yields.expect .semicolon).bind fun _ _ _ => ?_
  refine (yields_clause he .semicolon).bind fun condition _ hc => ?_
  refine (Yields.expect .semicolon).bind fun _ _ _ => ?_
  refine (yields_clause he .rightParen).bind fun update _ hu => ?_
  refine (Yields.expect .rightParen).bind fun _ _ _ => ?_
  refine (yields_block he turns).bind fun body _ hb => .pure ?_
  have hw : Node.WellFormed (.expr (.loop initializer condition update body position)) := by
    cases initializer with
    | none => trivial
    | some s => exact hi.1 s rfl
  refine .node hw rfl (.skip (hi.2.append (.skip (hc.append (.skip (hu.append ?_) _)) _)) _)
  exact .skip (.keep hb _) _

/-- The default of a parameter. -/
def defaults : Parameter → List Node
  | .required _ => []
  | .defaulted _ default => [.expr default]

theorem yields_parameter (he : Trusted expr) :
    Yields (parameter expr) fun p used => IsName p.1.name ∧ Parsed (defaults p.1) used := by
  refine Yields.peekPosition.bind fun position _ _ => ?_
  refine (Yields.take? .name).bind fun o _ ho => ?_
  cases o with
  | none => exact fun ts _ => List.suffix_refl ts
  | some token =>
    obtain ⟨hkind, hlexed⟩ := ho token rfl
    have hname := hlexed.name hkind
    refine (Yields.eat .assign).bind fun more _ _ => ?_
    split
    · refine (he .assign).bind fun default _ hdefault => .pure ⟨hname, ?_⟩
      exact .skip (.skip (.skip (.keep hdefault _) _) _) _
    · exact .pure ⟨hname, .nil _⟩

/-- Where no required parameter is found behind a default, none stands there. -/
theorem order_of_requiredAfterDefault? {ps : List (Parameter × Position)}
    (h : requiredAfterDefault? ps = none) :
    (ps.map Prod.fst).Pairwise fun p q => q.isRequired = true → p.isRequired = true := by
  induction ps with
  | nil => exact .nil
  | cons p ps ih =>
    obtain ⟨p, position⟩ := p
    cases p with
    | required name =>
      exact List.pairwise_cons.mpr ⟨fun _ _ _ => rfl, ih h⟩
    | defaulted name default =>
      have hnone : ∀ q ∈ ps.map Prod.fst, q.isRequired ≠ true := by
        simpa [requiredAfterDefault?] using h
      refine List.pairwise_cons.mpr ⟨fun q hq hr => absurd hr (hnone q hq), ?_⟩
      exact List.pairwise_of_forall_mem_list fun _ _ q hq hr => absurd hr (hnone q hq)

theorem parsed_parameters_cons {position : Position} {p : Parameter} {ps : List Parameter}
    {used more : List Position} (hp : Parsed (defaults p) used)
    (hps : Parsed [.parameters position ps] more) :
    Parsed [.parameters position (p :: ps)] (used ++ more) := by
  cases p with
  | required name => exact .node trivial rfl (.skip hps _)
  | defaulted name default => exact .node trivial rfl (hp.append hps)

theorem yields_functionLiteral (he : Trusted expr) (turns : Nat) (position : Position) :
    Yields (functionLiteral turns expr position) fun e used => Parsed [.expr e] used := by
  refine (Yields.take? .name).bind fun name _ hname => ?_
  refine (Yields.expect .leftParen).bind fun _ _ _ => ?_
  have hparameters : Yields (commaList (parameter expr) .rightParen turns) fun ps used =>
      (∀ p ∈ ps.map Prod.fst, IsName p.name) ∧
        Parsed [.parameters position (ps.map Prod.fst)] used := by
    refine (yields_parameter he).commaList ?_ ?_ ?_ _ turns
    · exact fun used => ⟨by simp, .leaf trivial rfl (List.nil_sublist used)⟩
    · intro p ps used more hp hps
      exact ⟨List.forall_mem_cons.mpr ⟨hp.1, hps.1⟩, parsed_parameters_cons hp.2 hps.2⟩
    · exact fun used h => ⟨h.1, .skip h.2 used⟩
  refine hparameters.bind fun ps _ hps => ?_
  split
  · exact .fails_bind (.failAt _ _)
  · rename_i hnone
    refine (yields_block he turns).bind fun body _ hbody => .pure ?_
    have hw : FunctionLiteral.WellFormed
        (.mk (name.map Token.literal) (ps.map Prod.fst) body) := by
      refine ⟨?_, hps.1, ?_⟩
      · intro word hword
        obtain ⟨token, htoken, rfl⟩ := Option.map_eq_some_iff.mp hword
        obtain ⟨hkind, hlexed⟩ := hname token htoken
        exact hlexed.name hkind
      · refine order_of_requiredAfterDefault? (Option.eq_none_iff_forall_ne_some.mpr ?_)
        rintro ⟨word, place⟩
        exact hnone word place
    exact .node hw rfl (.skip (.skip (hps.2.append (.keep hbody _)) _) _)

theorem yields_exprs (he : Trusted expr) (closing : TokenKind) (turns : Nat) :
    Yields (commaList (expr .lowest) closing turns) fun es used => Parsed [.exprs es] used :=
  (he .lowest).commaList .exprs_nil .exprs_cons (fun used h => .skip h used) closing turns

theorem yields_hashPair (he : Trusted expr) :
    Yields (hashPair expr) fun p used => Parsed [.expr p.1, .expr p.2] used := by
  refine (he .lowest).bind fun key _ hk => (Yields.expect .colon).bind fun _ _ _ => ?_
  exact (he .lowest).bind fun value _ hv => .pure (hk.append (.skip (.keep hv _) _))

theorem yields_pairs (he : Trusted expr) (turns : Nat) :
    Yields (commaList (hashPair expr) .rightBrace turns) fun ps used =>
      Parsed [.pairs ps] used := by
  refine (yields_hashPair he).commaList ?_ ?_ ?_ _ turns
  · exact fun used => .leaf trivial rfl (List.nil_sublist used)
  · exact fun hp hps => .node trivial rfl (hp.append hps)
  · exact fun used h => .skip h used

/-- No literal is negative. -/
theorem integerLiteral?_nonneg {literal : String} {value : Int64}
    (h : integerLiteral? literal = some value) : 0 ≤ value.toInt := by
  have hexact {n : Nat} (hn : Integer.ofExact? n = some value) : 0 ≤ value.toInt := by
    rw [Integer.ofExact?_eq_some_iff.mp hn]
    exact Int.natCast_nonneg n
  unfold integerLiteral? at h
  split at h
  · exact hexact h
  · exact hexact h
  · exact hexact h

theorem parsed_atom {token : Token} (ht : token.Lexed) {e : Expr}
    (h : atom? token = some (.ok e)) : Parsed [.expr e] [token.position] := by
  unfold atom? at h
  split at h
  · split at h
    · rename_i value hvalue
      cases h
      exact .leaf (integerLiteral?_nonneg hvalue) rfl (List.nil_sublist _)
    · cases h
  · split at h
    · cases h
      exact .leaf trivial rfl (List.nil_sublist _)
    · cases h
  · rename_i hkind
    cases h
    exact .leaf (ht.string hkind) rfl (List.nil_sublist _)
  · cases h
    exact .leaf trivial rfl (List.nil_sublist _)
  · cases h
    exact .leaf trivial rfl (List.nil_sublist _)
  · cases h
    exact .leaf trivial rfl (List.nil_sublist _)
  · rename_i hkind
    cases h
    exact .leaf (ht.name hkind) rfl (List.Sublist.refl _)
  · cases h
  · cases h

theorem yields_opened (he : Trusted expr) (turns : Nat) {kind : TokenKind} {position : Position}
    {rule : Parser Expr} (h : opened? turns expr kind position = some rule) :
    Yields rule fun e used => Parsed [.expr e] used := by
  unfold opened? at h
  split at h
  · cases h
    exact (he .unary).bind fun e _ hparsed => .pure (.node trivial rfl (.keep hparsed _))
  · cases h
    exact (he .unary).bind fun e _ hparsed => .pure (.node trivial rfl (.keep hparsed _))
  · cases h
    refine (he .lowest).bind fun inner _ hparsed => ?_
    exact (Yields.expect .rightParen).bind fun _ _ _ => .pure (.keep hparsed _)
  · cases h
    refine (yields_exprs he _ turns).bind fun es _ hparsed => .pure ?_
    exact .node trivial rfl (.keep hparsed _)
  · cases h
    refine (yields_pairs he turns).bind fun ps _ hparsed => .pure ?_
    exact .node trivial rfl (.keep hparsed _)
  · cases h
    exact (yields_conditional he turns turns position).mono fun _ _ h => h.2
  · cases h
    exact yields_loop he turns position
  · cases h
    exact yields_functionLiteral he turns position
  · cases h
    exact (he .unary).bind fun e _ hparsed => .pure (.node trivial rfl (.keep hparsed _))
  · cases h

/-- An operand takes at least one token. -/
theorem yields_operand (he : Trusted expr) (turns : Nat) :
    Yields (operand turns expr) fun e used => Parsed [.expr e] used ∧ used ≠ [] := by
  intro ts hts
  cases ts with
  | nil => exact List.suffix_refl []
  | cons token rest =>
    have hrest : ∀ t ∈ rest, t.Lexed := fun t ht => hts t (List.mem_cons_of_mem _ ht)
    simp only [operand]
    cases hatom : atom? token with
    | some result =>
      cases result with
      | ok e => exact ⟨[token], rfl, parsed_atom (hts token List.mem_cons_self) hatom, nofun⟩
      | error cause => exact List.suffix_refl _
    | none =>
      dsimp only
      cases hrule : opened? turns expr token.kind token.position with
      | none => exact List.suffix_refl _
      | some rule =>
        have hyields := yields_opened he turns hrule rest hrest
        dsimp only
        split
        · rename_i e behind heq
          rw [heq] at hyields
          obtain ⟨used, rfl, hparsed⟩ := hyields
          exact ⟨token :: used, rfl, .skip hparsed [token.position], nofun⟩
        · rename_i heq
          rw [heq] at hyields
          exact hyields.trans (List.suffix_cons token rest)

/-! ## Expressions that go on behind an operand -/

theorem yields_requireIdentifier {e : Expr} {used : List Position} (h : Parsed [.expr e] used)
    (operator : String) (position : Position) :
    Yields (requireIdentifier e operator position) fun name _ => IsName name := by
  unfold requireIdentifier
  split
  · exact .pure (h.wellFormed _ List.mem_cons_self).here
  · exact .failAt _ _

theorem yields_assignment (he : Trusted expr) {target : Expr} {used : List Position}
    (h : Parsed [.expr target] used) (kind : TokenKind) (position : Position) :
    Yields (assignment expr target kind position) fun e more =>
      Parsed [.expr e] (used ++ more) := by
  unfold assignment
  split
  · rename_i htarget
    refine (he _).bind fun value _ hvalue => .pure ?_
    exact .node htarget rfl (h.append (.keep hvalue _))
  · exact .failAt _ _

/-- Behind the operand `left` and the operator `token`, an expression goes on. The place of the
operator is the place of a step or of a branch; other expressions keep the places of `left`. -/
theorem yields_continued (he : Trusted expr) (turns : Nat) {left : Expr} {before : List Position}
    (hl : Parsed [.expr left] before) (token : Token) :
    Yields (continued turns expr left token) fun e used =>
      Parsed [.expr e] (before ++ ([token.position] ++ used)) := by
  unfold continued
  dsimp only
  split
  · refine (he _).bind fun right _ hr => .pure ?_
    exact .node trivial rfl (hl.append (.skip (.keep hr _) _))
  · have hassign (kind : TokenKind) : Yields (assignment expr left kind token.position)
        fun e used => Parsed [.expr e] (before ++ ([token.position] ++ used)) := by
      have hleft := hl.keep [token.position]
      refine (yields_assignment he hleft kind token.position).mono fun e used h => ?_
      rwa [List.append_assoc] at h
    have hplace (more : List Position) :
        [token.position].Sublist (before ++ ([token.position] ++ more)) := by
      simp
    split
    · exact hassign _
    · exact hassign _
    · exact hassign _
    · exact hassign _
    · exact hassign _
    · refine (he .lowest).bind fun consequence _ hc => ?_
      refine (Yields.expect .colon).bind fun _ _ _ => (he _).bind fun alternative _ ha => .pure ?_
      exact .node trivial rfl (hl.append (.skip (hc.append (.skip (.keep ha _) _)) _))
    · refine (he _).bind fun right _ hr => .pure ?_
      exact .node trivial rfl (hl.append (.skip (.keep hr _) _))
    · refine (yields_requireIdentifier hl _ _).bind fun name _ hname => .pure ?_
      exact .leaf hname rfl (hplace _)
    · refine (yields_requireIdentifier hl _ _).bind fun name _ hname => .pure ?_
      exact .leaf hname rfl (hplace _)
    · refine (yields_exprs he _ turns).bind fun arguments _ ha => .pure ?_
      exact .node trivial rfl (hl.append (.skip (.keep ha _) _))
    · refine (he .lowest).bind fun key _ hk => ?_
      refine (Yields.expect .rightBracket).bind fun _ _ _ => .pure ?_
      exact .node trivial rfl (hl.append (.skip (.keep hk _) _))
    · refine Yields.identifier.bind fun method _ hmethod => ?_
      refine (Yields.expect .leftParen).bind fun _ _ _ => ?_
      refine (yields_exprs he _ turns).bind fun arguments _ ha => .pure ?_
      exact .node hmethod rfl (hl.append (.skip (.skip (.skip (.keep ha _) _) _) _))
    · refine (yields_requireIdentifier hl _ _).bind fun name _ hname => ?_
      refine Yields.identifier.bind fun branch _ hbranch => .pure ?_
      exact .leaf ⟨hname, hbranch⟩ rfl (hplace _)
    · exact .failAt _ _

theorem yields_extend (he : Trusted expr) (turns : Nat) {left : Expr} {before : List Position}
    (hl : Parsed [.expr left] before) :
    Yields (extend turns expr left) fun e used => Parsed [.expr e] (before ++ used) := by
  intro ts hts
  cases ts with
  | nil => exact ⟨[], rfl, .keep hl _⟩
  | cons token rest =>
    have hrest : ∀ t ∈ rest, t.Lexed := fun t ht => hts t (List.mem_cons_of_mem _ ht)
    have hyields := yields_continued he turns hl token rest hrest
    simp only [extend]
    split
    · rename_i e behind heq
      rw [heq] at hyields
      obtain ⟨used, rfl, hparsed⟩ := hyields
      exact ⟨token :: used, rfl, hparsed⟩
    · rename_i heq
      rw [heq] at hyields
      exact hyields.trans (List.suffix_cons token rest)

theorem yields_climb (he : Trusted expr) (turns : Nat) (level : Precedence) (n : Nat)
    {left : Expr} {before : List Position} (hl : Parsed [.expr left] before) :
    Yields (climb turns expr level n left) fun e used => Parsed [.expr e] (before ++ used) := by
  induction n generalizing left before with
  | zero => exact .outOfTurns
  | succ n ih =>
    refine Yields.peekKind.bind fun kind peeked _ => ?_
    split
    · refine (yields_extend he turns (hl.keep peeked)).bind fun e _ hparsed => ?_
      refine (ih hparsed).mono fun _ _ h => ?_
      simpa only [List.append_assoc] using h
    · exact .pure (.keep hl _)

/-- Expressions of any depth are well formed. The induction is on the levels of nesting. -/
theorem trusted_expression (n : Nat) : Trusted (expression n) := by
  induction n with
  | zero => exact fun _ => .outOfTurns
  | succ n ih =>
    intro level
    exact (yields_operand ih n).bind fun left _ hl => yields_climb ih n level n hl.1

end Parser

/-! ## Programs -/

namespace Parser

theorem yields_parseStatement : Yields parseStatement fun s used => Parsed [.statement s] used :=
  fun ts => yields_statement (trusted_expression (ts.length + 1)) (ts.length + 1) ts

theorem suffix_afterSemicolons (ts : List Token) : afterSemicolons ts <:+ ts :=
  List.dropWhile_suffix _

theorem suffix_synchronized (ts : List Token) : synchronized ts <:+ ts := by
  fun_induction synchronized ts with
  | case1 => exact List.suffix_refl _
  | case2 token rest => exact List.suffix_cons token rest
  | case3 | case4 => exact List.suffix_refl _
  | case5 token rest _ _ _ ih => exact ih.trans (List.suffix_cons token rest)

theorem parsed_of_suffix {bs : List Node} {ts rest : List Token}
    (h : Parsed bs (rest.map Token.position)) (hs : rest <:+ ts) :
    Parsed bs (ts.map Token.position) :=
  h.mono (hs.sublist.map Token.position)

/-- Whatever errors there are, the statements that could be read are well formed. -/
theorem parsed_statements (turns : Nat) (recovering : Bool) {ts : List Token}
    (hts : ∀ t ∈ ts, t.Lexed) :
    Parsed [.statements (statements turns recovering ts).program] (ts.map Token.position) := by
  induction turns generalizing recovering ts with
  | zero => exact .statements_nil _
  | succ turns ih =>
    have hsuffix := suffix_afterSemicolons ts
    have hlexed : ∀ t ∈ afterSemicolons ts, t.Lexed := fun t ht => hts t (hsuffix.mem ht)
    refine parsed_of_suffix ?_ hsuffix
    unfold statements
    dsimp only
    split
    · exact .statements_nil _
    · have hdrop := List.drop_suffix 1 (afterSemicolons ts)
      exact parsed_of_suffix (ih true fun t ht => hlexed t (hdrop.mem ht)) hdrop
    · have hfirst := yields_parseStatement (afterSemicolons ts) hlexed
      split
      · rename_i first rest heq
        rw [heq] at hfirst
        obtain ⟨used, hused, hparsed⟩ := hfirst
        rw [hused, List.map_append]
        refine .statements_cons hparsed (ih false fun t ht => hlexed t ?_)
        rw [hused]
        exact List.mem_append_right _ ht
      · rename_i rest heq
        rw [heq] at hfirst
        have hrest := (suffix_synchronized rest).trans hfirst
        exact parsed_of_suffix (ih true fun t ht => hlexed t (hrest.mem ht)) hrest

end Parser

/-- Every node of a parsed program is well formed, also where there are errors in the text. -/
theorem parsed_program (source : String) :
    Parsed [.statements (parseProgram source).program] ((tokenize source).map Token.position) :=
  Parser.parsed_statements _ false (lexed_tokenize source)

theorem nodup_reads_program (source : String) :
    (Node.statements (parseProgram source).program).reads.Nodup := by
  have hplaces := (parsed_program source).places
  have hnodup := (nodup_tokenize source).sublist hplaces
  simp only [List.map_cons, List.map_nil, List.flatten_cons, List.flatten_nil,
    List.append_nil] at hnodup
  refine List.Pairwise.of_map Prod.snd (fun _ _ hne heq => ?_) hnodup
  exact hne (congrArg Prod.snd heq)

end ScriptLang
