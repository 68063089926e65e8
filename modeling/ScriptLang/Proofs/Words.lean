-- The words of a text: its names and its literals. A program that is read without an error has the
-- words of its text, in the order of the text, so reading loses nothing, doubles nothing and keeps
-- the order.
import ScriptLang.Proofs.Numerals
import ScriptLang.Proofs.Recovery

namespace ScriptLang

/-! ## Words of tokens -/

/-- A name, or the value of a literal. -/
inductive Word where
  | name (text : String)
  | integer (value : Int64)
  | float (value : Float)
  | string (text : String)
  | boolean (value : Bool)
  | null
  deriving DecidableEq

/-- What a token says: a name, a text, or the value of a literal. A number says what its numeral
stands for, if there is an integer with that value or a float that it is rounded to. -/
inductive Token.Says : Token → Word → Prop where
  | name {t : Token} (h : t.kind = .name) : t.Says (.name t.literal)
  | integer {t : Token} {n : ℕ} {value : Int64} (h : t.kind = .int)
      (hn : IntNumeral t.literal.toList n) (hvalue : value.toInt = n) : t.Says (.integer value)
  | float {t : Token} {q : ℚ} {value : Float} (h : t.kind = .float)
      (hq : FloatNumeral t.literal.toList q) (hvalue : RoundsTo q value) : t.Says (.float value)
  | string {t : Token} (h : t.kind = .string) : t.Says (.string t.literal)
  | trueWord {t : Token} (h : t.kind = .trueWord) : t.Says (.boolean true)
  | falseWord {t : Token} (h : t.kind = .falseWord) : t.Says (.boolean false)
  | nullWord {t : Token} (h : t.kind = .nullWord) : t.Says .null

/-- Whether a token of this kind is a name or a literal. -/
def TokenKind.isWord : TokenKind → Bool
  | .name | .int | .float | .string | .trueWord | .falseWord | .nullWord => true
  | _ => false

namespace Token

/-- The word that a token is read as. A number may have no value. -/
def word? (t : Token) : Option Word :=
  match t.kind with
  | .name => some (.name t.literal)
  | .int => (integerLiteral? t.literal).map .integer
  | .float => (floatLiteral? t.literal).map .float
  | .string => some (.string t.literal)
  | .trueWord => some (.boolean true)
  | .falseWord => some (.boolean false)
  | .nullWord => some .null
  | _ => none

/-- The words of a text, with a gap for a number that has no value. -/
def words (ts : List Token) : List (Option Word) :=
  (ts.filter fun t => t.kind.isWord).map word?

theorem words_append (ts us : List Token) : words (ts ++ us) = words ts ++ words us := by
  simp [words]

theorem words_cons_of_not_word {t : Token} (h : t.kind.isWord = false) (ts : List Token) :
    words (t :: ts) = words ts := by
  simp [words, h]

theorem words_sign {kind : TokenKind} (hkind : kind.isWord = false) (t : Token)
    (ht : t.kind = kind) : ([] : List Word).map some = words [t] := by
  simp [words, ht, hkind]

theorem words_name (t : Token) (ht : t.kind = .name) :
    [Word.name t.literal].map some = words [t] := by
  simp [words, word?, ht, TokenKind.isWord]

end Token

/-! ## Words of trees -/

mutual

/-- The names and the literals of an expression, in the order of the text. -/
def Expr.words : Expr → List Word
  | .integer value _ => [.integer value]
  | .float value _ => [.float value]
  | .string value _ => [.string value]
  | .boolean value _ => [.boolean value]
  | .null _ => [.null]
  | .identifier name _ => [.name name]
  | .unary _ operand _ => operand.words
  | .binary _ left right _ => left.words ++ right.words
  | .step _ name _ => [.name name]
  | .assign target _ value _ => target.words ++ value.words
  | .call function arguments _ => function.words ++ wordsOfExprs arguments
  | .index container key _ => container.words ++ key.words
  | .array elements _ => wordsOfExprs elements
  | .hash pairs _ => wordsOfPairs pairs
  | .conditional condition consequence alternative _ =>
    condition.words ++ consequence.words ++ match alternative with
      | some block => block.words
      | none => []
  | .ternary condition consequence alternative _ =>
    condition.words ++ consequence.words ++ alternative.words
  | .elvis left right _ => left.words ++ right.words
  | .loop initializer condition update body _ =>
    (match initializer with
      | some statement => statement.words
      | none => []) ++
    (match condition with
      | some expr => expr.words
      | none => []) ++
    (match update with
      | some expr => expr.words
      | none => []) ++ body.words
  | .function literal _ => literal.words
  | .methodCall receiver method arguments _ =>
    receiver.words ++ [.name method] ++ wordsOfExprs arguments
  | .scopeAccess name branch _ => [.name name, .name branch]
  | .importFile path _ => path.words

def wordsOfExprs : List Expr → List Word
  | [] => []
  | expr :: rest => expr.words ++ wordsOfExprs rest

def wordsOfPairs : List (Expr × Expr) → List Word
  | [] => []
  | (key, value) :: rest => key.words ++ value.words ++ wordsOfPairs rest

def Parameter.words : Parameter → List Word
  | .required name => [.name name]
  | .defaulted name default => .name name :: default.words

def wordsOfParameters : List Parameter → List Word
  | [] => []
  | parameter :: rest => parameter.words ++ wordsOfParameters rest

def FunctionLiteral.words : FunctionLiteral → List Word
  | .mk name parameters body =>
    name.toList.map Word.name ++ wordsOfParameters parameters ++ body.words

def Block.words : Block → List Word
  | .mk statements _ => wordsOfStatements statements

def wordsOfStatements : List Statement → List Word
  | [] => []
  | statement :: rest => statement.words ++ wordsOfStatements rest

def Statement.words : Statement → List Word
  | .var name value _ => .name name :: value.words
  | .assignment target _ value _ => target.words ++ value.words
  | .returning (some value) _ => value.words
  | .returning none _ => []
  | .breaking _ => []
  | .delete target _ => target.words
  | .enum name branches _ => .name name :: wordsOfBranches branches
  | .expression expr _ => expr.words

def wordsOfBranches : List (String × Expr) → List Word
  | [] => []
  | (branch, value) :: rest => .name branch :: value.words ++ wordsOfBranches rest

end

theorem wordsOfExprs_eq (es : List Expr) : wordsOfExprs es = es.flatMap Expr.words := by
  induction es with
  | nil => rfl
  | cons e es ih => simp [wordsOfExprs, ih]

theorem wordsOfPairs_eq (ps : List (Expr × Expr)) :
    wordsOfPairs ps = ps.flatMap fun p => p.1.words ++ p.2.words := by
  induction ps with
  | nil => rfl
  | cons p ps ih => simp [wordsOfPairs, ih]

theorem Expr.words_loop (initializer : Option Statement) (condition update : Option Expr)
    (body : Block) (position : Position) :
    (Expr.loop initializer condition update body position).words =
      wordsOfStatements initializer.toList ++ wordsOfExprs condition.toList ++
        wordsOfExprs update.toList ++ body.words := by
  cases initializer <;> cases condition <;> cases update <;>
    simp [Expr.words, wordsOfExprs, wordsOfStatements]

theorem wordsOfParameters_eq (ps : List Parameter) :
    wordsOfParameters ps = ps.flatMap Parameter.words := by
  induction ps with
  | nil => rfl
  | cons p ps ih => simp [wordsOfParameters, ih]

namespace Parser

/-! ## Parsers that keep words -/

variable {α β : Type} {ts us rest : List Token} {before : List Word} {x : Parser α}
  {f : α → Parser β} {v : α → List Word} {w : β → List Word}

/-- What a parser gives from the tokens `ts` has the words `before` it and then those of the tokens
that it takes. -/
def SpellsOn (before : List Word) (x : Parser α) (w : α → List Word) (ts : List Token) : Prop :=
  ∀ a rest, x ts = .ok a rest →
    ∃ used, ts = used ++ rest ∧ (w a).map some = before.map some ++ Token.words used

def Spells (before : List Word) (x : Parser α) (w : α → List Word) : Prop :=
  ∀ ts, SpellsOn before x w ts

theorem SpellsOn.goesOn (hx : SpellsOn before x v ts) (hf : ∀ a, Spells (v a) (f a) w) :
    SpellsOn before (x >>= f) w ts := by
  intro b rest hb
  rw [bind_eq] at hb
  cases hread : x ts with
  | error e behind =>
    rw [hread] at hb
    cases hb
  | ok a behind =>
    rw [hread] at hb
    obtain ⟨used, rfl, hused⟩ := hx a behind hread
    obtain ⟨more, rfl, hmore⟩ := hf a behind b rest hb
    refine ⟨used ++ more, (List.append_assoc ..).symm, ?_⟩
    rw [hmore, hused, Token.words_append, List.append_assoc]

theorem SpellsOn.after (hx : SpellsOn [] x v ts) (before : List Word) :
    SpellsOn before x (fun a => before ++ v a) ts := by
  intro a rest ha
  obtain ⟨used, hts, hused⟩ := hx a rest ha
  refine ⟨used, hts, ?_⟩
  rw [List.map_append, hused]
  rfl

theorem SpellsOn.bind (hx : SpellsOn [] x v ts) (hf : ∀ a, Spells (before ++ v a) (f a) w) :
    SpellsOn before (x >>= f) w ts := (hx.after before).goesOn hf

namespace Spells

theorem bind (hx : Spells [] x v) (hf : ∀ a, Spells (before ++ v a) (f a) w) :
    Spells before (x >>= f) w := fun ts => (hx ts).bind hf

theorem goesOn (hx : Spells before x v) (hf : ∀ a, Spells (v a) (f a) w) :
    Spells before (x >>= f) w := fun ts => (hx ts).goesOn hf

theorem after (hx : Spells [] x v) (before : List Word) :
    Spells before x fun a => before ++ v a := fun ts => (hx ts).after before

theorem congr {v' : α → List Word} (h : Spells before x v) (hv : ∀ a, v a = v' a) :
    Spells before x v' := funext hv ▸ h

/-- A result without words of its own. -/
theorem quiet (hx : Spells [] x fun _ => []) (hf : ∀ a, Spells before (f a) w) :
    Spells before (x >>= f) w := by
  refine hx.bind fun a => ?_
  rw [List.append_nil]
  exact hf a

theorem pure {a : α} (h : v a = before) : Spells before (pure a) v := by
  rintro ts _ _ ⟨⟩
  exact ⟨[], rfl, by simp [h, Token.words]⟩

theorem fails_bind (h : ∀ ts, ∃ e rest, x ts = .error e rest) : Spells before (x >>= f) w := by
  intro ts b rest hb
  obtain ⟨e, behind, hread⟩ := h ts
  rw [bind_eq, hread] at hb
  cases hb

theorem failAt (position : Position) (cause : ParseCause) :
    Spells before (failAt position cause) v := nofun

theorem failUnexpected (expected : TokenKind) : Spells before (failUnexpected expected) v := nofun

theorem outOfTurns : Spells before outOfTurns v := nofun

theorem peekPosition : Spells [] peekPosition fun _ => [] := by
  rintro ts _ _ ⟨⟩
  exact ⟨[], rfl, rfl⟩

theorem peekKind_bind {f : TokenKind → Parser β}
    (h : ∀ kind ts, headKind ts = kind → SpellsOn before (f kind) w ts) :
    Spells before (peekKind >>= f) w := fun ts => h (headKind ts) ts rfl

theorem skipSemicolons : Spells [] skipSemicolons fun _ => [] := by
  rintro ts _ _ ⟨⟩
  refine ⟨ts.takeWhile fun t => t.kind = .semicolon, List.takeWhile_append_dropWhile.symm, ?_⟩
  have hnone :
      ((ts.takeWhile fun t => t.kind = .semicolon).filter fun t => t.kind.isWord) = [] := by
    refine List.filter_eq_nil_iff.mpr fun t ht => ?_
    have hkind : t.kind = .semicolon := by simpa using List.mem_takeWhile_imp ht
    simp [hkind, TokenKind.isWord]
  simp [Token.words, hnone]

theorem take? {kind : TokenKind} {v : Token → List Word}
    (hv : ∀ t, t.kind = kind → (v t).map some = Token.words [t]) :
    Spells [] (take? kind) fun o => o.toList.flatMap v := by
  intro ts o rest h
  cases ts with
  | nil =>
    cases h
    exact ⟨[], rfl, rfl⟩
  | cons t ts =>
    by_cases ht : t.kind = kind
    · rw [take?_cons_of_eq ht] at h
      cases h
      exact ⟨[t], rfl, by simpa using hv t ht⟩
    · rw [take?_cons_of_ne ht] at h
      cases h
      exact ⟨[], rfl, rfl⟩

theorem takeSign {kind : TokenKind} (hkind : kind.isWord = false) :
    Spells [] (Parser.take? kind) fun _ => [] :=
  (take? (Token.words_sign hkind)).congr fun o => by cases o <;> rfl

theorem takeName : Spells [] (Parser.take? .name) fun o => o.toList.map fun t => .name t.literal :=
  (take? Token.words_name).congr fun o => by cases o <;> rfl

theorem eat {kind : TokenKind} (hkind : kind.isWord = false) : Spells [] (eat kind) fun _ => [] :=
  (takeSign hkind).quiet fun _ => .pure rfl

theorem expect {kind : TokenKind} {v : Token → List Word}
    (hv : ∀ t, t.kind = kind → (v t).map some = Token.words [t]) :
    Spells [] (expect kind) v := by
  refine (take? hv).bind fun o => ?_
  cases o with
  | none => exact .failUnexpected kind
  | some t => exact .pure (by simp)

theorem expectSign {kind : TokenKind} (hkind : kind.isWord = false) :
    Spells [] (Parser.expect kind) fun _ => [] := expect (Token.words_sign hkind)

theorem identifier : Spells [] identifier fun name => [.name name] :=
  (expect Token.words_name).bind fun _ => .pure rfl

theorem commaList {v : α → List Word} (hx : Spells [] x v) {closing : TokenKind}
    (hclosing : closing.isWord = false) (turns : Nat) :
    Spells [] (commaList x closing turns) fun as => as.flatMap v := by
  induction turns with
  | zero => exact .outOfTurns
  | succ turns ih =>
    refine (eat hclosing).quiet fun closed => ?_
    split
    · exact .pure rfl
    · refine hx.bind fun first => (eat (by decide)).quiet fun comma => ?_
      split
      · exact ih.bind fun rest => .pure (by simp)
      · exact (expectSign hclosing).quiet fun _ => .pure (by simp)

end Spells

/-! ## Statements -/

/-- A parser of expressions that keeps words. -/
def Literal (expr : ExprParser) : Prop := ∀ level, Spells [] (expr level) Expr.words

variable {expr : ExprParser}

theorem spells_varStatement (he : Literal expr) :
    Spells [] (varStatement expr) Statement.words := by
  refine (Spells.expectSign (by decide)).quiet fun keyword => Spells.identifier.bind fun name => ?_
  refine (Spells.expectSign (by decide)).quiet fun _ => ?_
  exact (he .lowest).bind fun value => .pure rfl

theorem spells_expressionStatement (he : Literal expr) :
    Spells [] (expressionStatement expr) Statement.words := by
  refine Spells.peekPosition.quiet fun position => (he .lowest).bind fun e => ?_
  split
  · exact .pure rfl
  · exact .pure rfl

theorem spells_returnStatement (he : Literal expr) :
    Spells [] (returnStatement expr) Statement.words := by
  refine (Spells.expectSign (by decide)).quiet fun keyword => .peekKind_bind fun kind ts _ => ?_
  split
  · exact Spells.pure rfl ts
  · exact Spells.pure rfl ts
  · exact Spells.pure rfl ts
  · exact (he .lowest ts).bind fun value => .pure rfl

theorem spells_deleteStatement (he : Literal expr) :
    Spells [] (deleteStatement expr) Statement.words := by
  refine (Spells.expectSign (by decide)).quiet fun keyword => (he .lowest).bind fun target => ?_
  split
  · exact .pure rfl
  · exact .failAt _ _

theorem spells_enumBranches (he : Literal expr) (name : String) (seen : List String)
    (turns : Nat) : Spells [] (enumBranches expr name seen turns) wordsOfBranches := by
  induction turns generalizing seen with
  | zero => exact .outOfTurns
  | succ turns ih =>
    refine (Spells.eat (by decide)).quiet fun closed => ?_
    split
    · exact .pure rfl
    · refine (Spells.expectSign (by decide)).quiet fun _ => ?_
      refine Spells.peekPosition.quiet fun position => Spells.identifier.bind fun branch => ?_
      split
      · exact .fails_bind fun ts => ⟨_, _, rfl⟩
      · refine (Spells.expectSign (by decide)).quiet fun _ => (he .lowest).bind fun value => ?_
        refine (Spells.eat (by decide)).quiet fun _ => (ih _).bind fun bs => .pure ?_
        simp [wordsOfBranches]

theorem spells_enumStatement (he : Literal expr) (turns : Nat) :
    Spells [] (enumStatement turns expr) Statement.words := by
  refine (Spells.expectSign (by decide)).quiet fun keyword => Spells.identifier.bind fun name => ?_
  refine (Spells.expectSign (by decide)).quiet fun _ => ?_
  exact (spells_enumBranches he name [] turns).bind fun branches => .pure rfl

theorem spells_breaking (h : headKind ts = .breakWord) :
    SpellsOn [] (do let position ← peekPosition; skip; return .breaking position) Statement.words
      ts := by
  cases ts with
  | nil => cases h
  | cons t ts =>
    have ht : t.kind = .breakWord := h
    rintro _ _ ⟨⟩
    exact ⟨[t], rfl, Token.words_sign (by simp [ht, TokenKind.isWord]) t rfl⟩

theorem spells_bareStatement (he : Literal expr) (turns : Nat) :
    Spells [] (bareStatement turns expr) Statement.words := by
  refine .peekKind_bind fun kind ts hts => ?_
  split
  · exact spells_varStatement he ts
  · exact spells_returnStatement he ts
  · exact spells_breaking hts
  · exact spells_deleteStatement he ts
  · exact spells_enumStatement he turns ts
  · exact spells_expressionStatement he ts

theorem spells_statement (he : Literal expr) (turns : Nat) :
    Spells [] (statement turns expr) Statement.words :=
  (spells_bareStatement he turns).bind fun _ => (Spells.eat (by decide)).quiet fun _ => .pure rfl

theorem spells_blockStatements (he : Literal expr) (turns left : Nat) :
    Spells [] (blockStatements turns expr left) wordsOfStatements := by
  induction left with
  | zero => exact .outOfTurns
  | succ left ih =>
    refine Spells.skipSemicolons.quiet fun _ => (Spells.eat (by decide)).quiet fun closed => ?_
    split
    · exact .pure rfl
    · refine .peekKind_bind fun kind ts _ => ?_
      split
      · exact Spells.fails_bind (fun ts => ⟨_, _, rfl⟩) ts
      · exact (spells_statement he turns ts).bind fun s => ih.bind fun ss => .pure rfl

theorem spells_block (he : Literal expr) (turns : Nat) :
    Spells [] (block turns expr) Block.words := by
  refine (Spells.expectSign (by decide)).quiet fun brace => ?_
  exact (spells_blockStatements he turns turns).bind fun ss => .pure rfl

/-! ## Expressions that start with a token of their own -/

theorem spells_conditional (he : Literal expr) (turns left : Nat) (position : Position) :
    Spells [] (conditional turns expr left position) Expr.words := by
  induction left generalizing position with
  | zero => exact .outOfTurns
  | succ left ih =>
    refine (he .lowest).bind fun condition => (spells_block he turns).bind fun consequence => ?_
    refine (Spells.eat (by decide)).quiet fun other => ?_
    split
    · refine (Spells.takeSign (by decide)).quiet fun o => ?_
      cases o with
      | some keyword =>
        refine (ih keyword.position).bind fun nested => .pure ?_
        simp [Expr.words, Block.words, wordsOfStatements, Statement.words]
      | none => exact (spells_block he turns).bind fun alternative => .pure rfl
    · exact .pure (by simp [Expr.words])

theorem spells_loopInitializer (he : Literal expr) :
    Spells [] (loopInitializer expr) fun o => wordsOfStatements o.toList := by
  refine .peekKind_bind fun kind ts _ => ?_
  split
  · exact Spells.pure rfl ts
  · exact (spells_varStatement he ts).bind fun s => .pure (List.append_nil _)
  · exact (spells_expressionStatement he ts).bind fun s => .pure (List.append_nil _)

theorem spells_clause (he : Literal expr) (closing : TokenKind) :
    Spells [] (clause expr closing) fun o => wordsOfExprs o.toList := by
  refine .peekKind_bind fun kind ts _ => ?_
  split
  · exact Spells.pure rfl ts
  · exact (he .lowest ts).bind fun e => .pure (List.append_nil _)

theorem spells_loop (he : Literal expr) (turns : Nat) (position : Position) :
    Spells [] (loop turns expr position) Expr.words := by
  refine (Spells.expectSign (by decide)).quiet fun _ => ?_
  refine (spells_loopInitializer he).bind fun initializer => ?_
  refine (Spells.expectSign (by decide)).quiet fun _ => ?_
  refine (spells_clause he .semicolon).bind fun condition => ?_
  refine (Spells.expectSign (by decide)).quiet fun _ => ?_
  refine (spells_clause he .rightParen).bind fun update => ?_
  refine (Spells.expectSign (by decide)).quiet fun _ => ?_
  exact (spells_block he turns).bind fun body => .pure (Expr.words_loop ..)

theorem spells_parameter (he : Literal expr) :
    Spells [] (parameter expr) fun p => p.1.words := by
  refine Spells.peekPosition.quiet fun position => Spells.takeName.bind fun o => ?_
  cases o with
  | none => exact nofun
  | some token =>
    refine (Spells.eat (by decide)).quiet fun more => ?_
    split
    · exact (he .assign).bind fun default => .pure rfl
    · exact .pure rfl

theorem spells_functionLiteral (he : Literal expr) (turns : Nat) (position : Position) :
    Spells [] (functionLiteral turns expr position) Expr.words := by
  refine Spells.takeName.bind fun name => (Spells.expectSign (by decide)).quiet fun _ => ?_
  refine ((spells_parameter he).commaList (by decide) turns).bind fun ps => ?_
  split
  · exact .fails_bind fun ts => ⟨_, _, rfl⟩
  · refine (spells_block he turns).bind fun body => .pure ?_
    cases name <;>
      simp [Expr.words, FunctionLiteral.words, wordsOfParameters_eq, List.flatMap_map]

theorem spells_exprs (he : Literal expr) {closing : TokenKind} (hclosing : closing.isWord = false)
    (turns : Nat) : Spells [] (commaList (expr .lowest) closing turns) wordsOfExprs :=
  ((he .lowest).commaList hclosing turns).congr fun es => (wordsOfExprs_eq es).symm

theorem spells_hashPair (he : Literal expr) :
    Spells [] (hashPair expr) fun p => p.1.words ++ p.2.words := by
  refine (he .lowest).bind fun key => (Spells.expectSign (by decide)).quiet fun _ => ?_
  exact (he .lowest).bind fun value => .pure rfl

theorem spells_pairs (he : Literal expr) (turns : Nat) :
    Spells [] (commaList (hashPair expr) .rightBrace turns) wordsOfPairs :=
  ((spells_hashPair he).commaList (by decide) turns).congr fun ps => (wordsOfPairs_eq ps).symm

/-- A token that stands for itself is the word that it gives. -/
theorem words_atom {token : Token} {e : Expr} (h : atom? token = some (.ok e)) :
    e.words.map some = Token.words [token] := by
  unfold atom? at h
  split at h
  case h_1 hkind | h_2 hkind =>
    split at h
    · rename_i hvalue
      cases h
      simp [Token.words, Token.word?, hkind, TokenKind.isWord, Expr.words, hvalue]
    · cases h
  case h_3 hkind | h_4 hkind | h_5 hkind | h_6 hkind | h_7 hkind =>
    cases h
    simp [Token.words, Token.word?, hkind, TokenKind.isWord, Expr.words]
  case h_8 | h_9 => cases h

theorem spells_opened (he : Literal expr) (turns : Nat) {kind : TokenKind} {position : Position}
    {rule : Parser Expr} (h : opened? turns expr kind position = some rule) :
    kind.isWord = false ∧ Spells [] rule Expr.words := by
  unfold opened? at h
  split at h
  · cases h
    exact ⟨rfl, (he .unary).bind fun e => .pure rfl⟩
  · cases h
    exact ⟨rfl, (he .unary).bind fun e => .pure rfl⟩
  · cases h
    refine ⟨rfl, (he .lowest).bind fun inner => ?_⟩
    exact (Spells.expectSign (by decide)).quiet fun _ => .pure rfl
  · cases h
    exact ⟨rfl, (spells_exprs he (by decide) turns).bind fun es => .pure rfl⟩
  · cases h
    exact ⟨rfl, (spells_pairs he turns).bind fun ps => .pure rfl⟩
  · cases h
    exact ⟨rfl, spells_conditional he turns turns position⟩
  · cases h
    exact ⟨rfl, spells_loop he turns position⟩
  · cases h
    exact ⟨rfl, spells_functionLiteral he turns position⟩
  · cases h
    exact ⟨rfl, (he .unary).bind fun e => .pure rfl⟩
  · cases h

theorem spells_operand (he : Literal expr) (turns : Nat) :
    Spells [] (operand turns expr) Expr.words := by
  intro ts e rest h
  cases ts with
  | nil => cases h
  | cons token ts =>
    simp only [operand] at h
    cases hatom : atom? token with
    | some result =>
      rw [hatom] at h
      cases result with
      | error cause => cases h
      | ok e =>
        cases h
        exact ⟨[token], rfl, words_atom hatom⟩
    | none =>
      rw [hatom] at h
      cases hrule : opened? turns expr token.kind token.position with
      | none => simp [hrule] at h
      | some rule =>
        simp only [hrule] at h
        obtain ⟨hsign, hspells⟩ := spells_opened he turns hrule
        obtain ⟨used, rfl, hused⟩ := hspells ts e rest h
        refine ⟨token :: used, rfl, ?_⟩
        rw [Token.words_cons_of_not_word hsign]
        exact hused

/-! ## Expressions that go on behind an operand -/

/-- An operand that has to be a name has one word. -/
theorem spells_requireIdentifier (e : Expr) (operator : String) (position : Position)
    {f : String → Parser β} (hf : ∀ name, e.words = [.name name] → Spells before (f name) w) :
    Spells before (requireIdentifier e operator position >>= f) w := by
  unfold requireIdentifier
  split
  · exact hf _ rfl
  · exact .fails_bind fun ts => ⟨_, _, rfl⟩

theorem spells_assignment (he : Literal expr) (target : Expr) (kind : TokenKind)
    (position : Position) :
    Spells target.words (assignment expr target kind position) Expr.words := by
  unfold assignment
  split
  · exact (he _).bind fun value => .pure rfl
  · exact .failAt _ _

theorem spells_continued (he : Literal expr) (turns : Nat) (left : Expr) (token : Token) :
    Spells left.words (continued turns expr left token) Expr.words := by
  unfold continued
  dsimp only
  split
  · exact (he _).bind fun right => .pure rfl
  · split
    · exact spells_assignment he left _ _
    · exact spells_assignment he left _ _
    · exact spells_assignment he left _ _
    · exact spells_assignment he left _ _
    · exact spells_assignment he left _ _
    · refine (he _).bind fun consequence => (Spells.expectSign (by decide)).quiet fun _ => ?_
      exact (he _).bind fun alternative => .pure rfl
    · exact (he _).bind fun right => .pure rfl
    · exact spells_requireIdentifier left _ _ fun name hname => .pure hname.symm
    · exact spells_requireIdentifier left _ _ fun name hname => .pure hname.symm
    · exact (spells_exprs he (by decide) turns).bind fun arguments => .pure rfl
    · refine (he _).bind fun key => ?_
      exact (Spells.expectSign (by decide)).quiet fun _ => .pure rfl
    · refine Spells.identifier.bind fun method => (Spells.expectSign (by decide)).quiet fun _ => ?_
      exact (spells_exprs he (by decide) turns).bind fun arguments => .pure rfl
    · refine spells_requireIdentifier left _ _ fun name hname => ?_
      exact Spells.identifier.bind fun branch => .pure (by simp [Expr.words, hname])
    · exact .failAt _ _

/-- Nothing goes on over a name or a literal. -/
theorem continued_of_word {token : Token} (h : token.kind.isWord = true) (turns : Nat)
    (left : Expr) :
    continued turns expr left token = failAt token.position (.noExpression token.kind) := by
  unfold TokenKind.isWord at h
  split at h
  case h_8 => cases h
  all_goals
    rename_i hkind
    simp only [continued, hkind]
    rfl

theorem spells_extend (he : Literal expr) (turns : Nat) (left : Expr) :
    Spells left.words (extend turns expr left) Expr.words := by
  intro ts e rest h
  cases ts with
  | nil =>
    cases h
    exact ⟨[], rfl, by simp [Token.words]⟩
  | cons token ts =>
    simp only [extend] at h
    cases hword : token.kind.isWord with
    | true =>
      rw [continued_of_word hword] at h
      cases h
    | false =>
      obtain ⟨used, rfl, hused⟩ := spells_continued he turns left token ts e rest h
      refine ⟨token :: used, rfl, ?_⟩
      rw [Token.words_cons_of_not_word hword]
      exact hused

theorem spells_climb (he : Literal expr) (turns : Nat) (level : Precedence) (n : Nat)
    (left : Expr) : Spells left.words (climb turns expr level n left) Expr.words := by
  induction n generalizing left with
  | zero => exact .outOfTurns
  | succ n ih =>
    refine .peekKind_bind fun kind ts _ => ?_
    split
    · exact (spells_extend he turns left ts).goesOn ih
    · exact Spells.pure rfl ts

/-- Expressions of any depth keep their words. The induction is on the levels of nesting. -/
theorem literal_expression (n : Nat) : Literal (expression n) := by
  induction n with
  | zero => exact fun _ => .outOfTurns
  | succ n ih =>
    intro level
    exact (spells_operand ih n).bind fun left => spells_climb ih n level n left

/-! ## Programs -/

theorem spells_parseStatement : Spells [] parseStatement Statement.words := fun ts =>
  spells_statement (literal_expression (ts.length + 1)) (ts.length + 1) ts

theorem words_afterSemicolons (ts : List Token) :
    Token.words (afterSemicolons ts) = Token.words ts := by
  obtain ⟨used, hts, hused⟩ := Spells.skipSemicolons ts () _ rfl
  have hnone : Token.words used = [] := by simpa using hused.symm
  conv => rhs; rw [hts]
  rw [Token.words_append, hnone, List.nil_append]

/-- A text without errors has the words of its program. -/
theorem Clean.words {p : Program} (h : Clean ts p) (hts : Ended ts) :
    Token.words ts = (wordsOfStatements p).map some := by
  induction h with
  | @done ts hend =>
    rw [← words_afterSemicolons]
    have hafter := hts.afterSemicolons
    generalize afterSemicolons ts = us at hend hafter
    cases us with
    | nil => rfl
    | cons t us =>
      have ht : t.kind = .endOfText := hend
      rw [hafter.eq_singleton ht]
      exact (Token.words_sign (by simp [ht, TokenKind.isWord]) t rfl).symm
  | @next ts rest s p _ hread _ ih =>
    have hout := outcome_parseStatement hts.afterSemicolons
    obtain ⟨used, hused, hwords⟩ := spells_parseStatement _ s rest hread
    rw [hread] at hout
    cases hout with
    | ok hl _ _ =>
      rw [← words_afterSemicolons, hused, Token.words_append, ih hl.ended, wordsOfStatements,
        List.map_append, hwords]
      rfl

end Parser

/-! ## What the tokens say -/

/-- An integer literal is read as the integer with the value of its numeral. -/
theorem integerLiteral?_eq_some_iff {literal : String} {n : ℕ} {value : Int64}
    (h : IntNumeral literal.toList n) : integerLiteral? literal = some value ↔ value.toInt = n := by
  rw [integerLiteral?_of_numeral h, Integer.ofExact?_eq_some_iff]

/-- A token is read as a word exactly where it says that word. -/
theorem Token.says_iff {source : String} {t : Token} (ht : t ∈ tokenize source) {w : Word} :
    t.Says w ↔ t.word? = some w := by
  obtain ⟨hint, hfloat⟩ := number_of_mem_tokenize ht
  unfold word?
  constructor
  · intro h
    cases h with
    | integer hkind hn hvalue =>
      rw [hkind]
      exact Option.map_eq_some_iff.mpr ⟨_, (integerLiteral?_eq_some_iff hn).mpr hvalue, rfl⟩
    | float hkind hq hvalue =>
      rw [hkind]
      exact Option.map_eq_some_iff.mpr ⟨_, (floatLiteral?_eq_some_iff hq).mpr hvalue, rfl⟩
    | name hkind | string hkind | trueWord hkind | falseWord hkind | nullWord hkind => rw [hkind]
  · intro h
    split at h
    · cases h
      exact .name ‹_›
    · rename_i hkind
      obtain ⟨value, hvalue, rfl⟩ := Option.map_eq_some_iff.mp h
      obtain ⟨n, hn⟩ := exists_intNumeral (hint hkind)
      exact .integer hkind hn ((integerLiteral?_eq_some_iff hn).mp hvalue)
    · rename_i hkind
      obtain ⟨value, hvalue, rfl⟩ := Option.map_eq_some_iff.mp h
      obtain ⟨q, hq⟩ := exists_floatNumeral (hfloat hkind)
      exact .float hkind hq ((floatLiteral?_eq_some_iff hq).mp hvalue)
    · cases h
      exact .string ‹_›
    · cases h
      exact .trueWord ‹_›
    · cases h
      exact .falseWord ‹_›
    · cases h
      exact .nullWord ‹_›
    · cases h

/-- Tokens are read as words exactly where they say these words, one after the other. -/
theorem Token.forall₂_says_iff {source : String} {ts : List Token}
    (hts : ∀ t ∈ ts, t ∈ tokenize source) {ws : List Word} :
    List.Forall₂ Token.Says ts ws ↔ ts.map Token.word? = ws.map some := by
  induction ts generalizing ws with
  | nil => cases ws <;> simp
  | cons t ts ih =>
    obtain ⟨ht, hmore⟩ := List.forall_mem_cons.mp hts
    cases ws with
    | nil => simp
    | cons w ws => simp [says_iff ht, ih hmore]

/-- Nothing is lost, doubled or moved by reading a text without errors. The names and literals of
the program are what the tokens say, in their order, and no other words are. -/
theorem read_words_of_text {source : String} (h : (parseProgram source).errors = []) :
    let words := wordsOfStatements (parseProgram source).program
    let tokens := (tokenize source).filter fun t => t.kind.isWord
    List.Forall₂ Token.Says tokens words ∧
      ∀ others, List.Forall₂ Token.Says tokens others → others = words := by
  intro words tokens
  have hmem : ∀ t ∈ tokens, t ∈ tokenize source := fun t ht => (List.mem_filter.mp ht).1
  have hwords := (Parser.clean_of_read h).words (Parser.ended_tokenize source)
  refine ⟨(Token.forall₂_says_iff hmem).mpr hwords, fun others hothers => ?_⟩
  have hsame := ((Token.forall₂_says_iff hmem).mp hothers).symm.trans hwords
  exact List.map_injective_iff.mpr (Option.some_injective Word) hsame

/-- A call, a method, a branch of an enum and literals. -/
theorem words_of_small_program :
    let source := "f(a, 0x1F).x(E::A, null, 12.5e-1) ?: \"y\""
    let words : List Word := [.name "f", .name "a", .integer 31, .name "x", .name "E", .name "A",
      .null, .float 1.25, .string "y"]
    (parseProgram source).errors = [] ∧
      wordsOfStatements (parseProgram source).program = words ∧
      List.Forall₂ Token.Says ((tokenize source).filter fun t => t.kind.isWord) words := by
  intro source words
  have hread : (parseProgram source).errors = [] := by decide +kernel
  have hwords : wordsOfStatements (parseProgram source).program = words := by
    decide +kernel
  exact ⟨hread, hwords, hwords ▸ (read_words_of_text hread).1⟩

end ScriptLang
