-- Reading canonical text back. The parser makes of the tokens of an expression the expression
-- itself, up to places, and takes no token behind them.
import ScriptLang.Proofs.CanonicalTokens
import ScriptLang.Proofs.Unplaced

namespace ScriptLang

namespace Parser

variable {α β : Type} {ts rest : List Token}

/-! ## Single tokens -/

theorem bind_of_ok {x : Parser α} {f : α → Parser β} {a : α} (h : x ts = .ok a rest) :
    (x >>= f) ts = f a rest := by
  change EStateM.bind x f ts = _
  unfold EStateM.bind
  rw [h]

theorem take?_of_kind {token : Token} {kind : TokenKind} (h : token.kind = kind) :
    take? kind (token :: rest) = .ok (some token) rest := if_pos h

theorem take?_of_ne {token : Token} {kind : TokenKind} (h : token.kind ≠ kind) :
    take? kind (token :: rest) = .ok none (token :: rest) := if_neg h

theorem eat_of_kind {token : Token} {kind : TokenKind} (h : token.kind = kind) :
    eat kind (token :: rest) = .ok true rest := bind_of_ok (take?_of_kind h)

theorem eat_of_ne {token : Token} {kind : TokenKind} (h : token.kind ≠ kind) :
    eat kind (token :: rest) = .ok false (token :: rest) := bind_of_ok (take?_of_ne h)

theorem expect_of_kind {token : Token} {kind : TokenKind} (h : token.kind = kind) :
    expect kind (token :: rest) = .ok token rest := bind_of_ok (take?_of_kind h)

theorem identifier_of_kind {token : Token} (h : token.kind = .name) :
    identifier (token :: rest) = .ok token.literal rest := bind_of_ok (expect_of_kind h)

/-! ## Shapes -/

theorem map_shape_cons {kind : TokenKind} {literal : String} {shapes : List Shape}
    (h : ts.map Token.shape = (kind, literal) :: shapes) :
    ∃ token more, ts = token :: more ∧ token.kind = kind ∧ token.literal = literal ∧
      more.map Token.shape = shapes := by
  cases ts with
  | nil => cases h
  | cons token more =>
    obtain ⟨hshape, hmore⟩ := List.cons.inj h
    exact ⟨token, more, rfl, congrArg Prod.fst hshape, congrArg Prod.snd hshape, hmore⟩

/-- Tokens up to a last one. -/
theorem map_shape_last {shapes : List Shape} {kind : TokenKind}
    (h : ts.map Token.shape = shapes ++ [kind.shape]) :
    ∃ mid close, ts = mid ++ [close] ∧ mid.map Token.shape = shapes ∧ close.kind = kind := by
  obtain ⟨mid, last, rfl, hmid, hlast⟩ := List.map_eq_append_iff.mp h
  obtain ⟨close, more, rfl, hclose, -, hmore⟩ := map_shape_cons hlast
  obtain rfl : more = [] := List.map_eq_nil_iff.mp hmore
  exact ⟨mid, close, rfl, hmid, hclose⟩

/-- Tokens between parentheses. -/
theorem map_shape_enclosed {inner : List Shape} (h : ts.map Token.shape = enclosed inner) :
    ∃ left mid right, ts = left :: (mid ++ [right]) ∧ left.kind = .leftParen ∧
      right.kind = .rightParen ∧ mid.map Token.shape = inner := by
  obtain ⟨left, more, rfl, hleft, -, hmore⟩ := map_shape_cons h
  obtain ⟨mid, right, rfl, hmid, hright⟩ := map_shape_last hmore
  exact ⟨left, mid, right, rfl, hleft, hright, hmid⟩

/-! ## Climbing over operators -/

/-- Tokens that end an expression at every level. -/
def Stops (ts : List Token) : Prop := Precedence.of (headKind ts) = .lowest

theorem stops_cons {token : Token} (h : Precedence.of token.kind = .lowest) :
    Stops (token :: rest) := h

theorem climb_of_stops {turns k : Nat} {expr : ExprParser} {level : Precedence} {left : Expr}
    (h : Stops ts) : climb turns expr level (k + 1) left ts = .ok left ts := by
  have hlevel : ¬level < Precedence.of (headKind ts) := by
    rw [h]
    exact Nat.not_lt_zero _
  change (if level < Precedence.of (headKind ts) then _ else _ : Parser Expr) ts = _
  rw [if_neg hlevel]
  rfl

theorem climb_of_lt {turns k : Nat} {expr : ExprParser} {level : Precedence} {left : Expr}
    {token : Token} (h : level < Precedence.of token.kind) :
    climb turns expr level (k + 1) left (token :: rest) =
      (continued turns expr left token >>= climb turns expr level k) rest := by
  change (if level < Precedence.of (headKind (token :: rest)) then _ else _ : Parser Expr)
    (token :: rest) = _
  rw [if_pos (by exact h)]
  rfl

/-! ## Reading an expression -/

/-- The tokens of an expression are read as the expression, up to places: its first operand, and
the calls and accesses behind that. There are at least as many levels and turns as tokens, and
fewer turns are used up than tokens are read. -/
def Reads (e : Expr) : Prop :=
  ∀ ts, ts.map Token.shape = e.shapes → ∀ n, ts.length ≤ n →
  ∀ level : Precedence, level.rank ≤ Precedence.unary.rank →
  ∀ turns, ts.length ≤ turns → ∀ rest, ∃ e' left, e'.unplaced = e.unplaced ∧
    turns < left + ts.length ∧
    (operand n (expression n) >>= climb n (expression n) level turns) (ts ++ rest) =
      climb n (expression n) level left e' rest

/-- The tokens of an expression are one operand. -/
def ReadsOperand (e : Expr) : Prop :=
  ∀ ts, ts.map Token.shape = e.shapes → ∀ n, ts.length ≤ n → ∀ rest, ∃ e',
    e'.unplaced = e.unplaced ∧ operand n (expression n) (ts ++ rest) = .ok e' rest

theorem ReadsOperand.reads {e : Expr} (h : ReadsOperand e) (hne : e.shapes ≠ []) : Reads e := by
  intro ts hts n hn level _ turns _ rest
  obtain ⟨e', hsame, hread⟩ := h ts hts n hn rest
  refine ⟨e', turns, hsame, ?_, bind_of_ok hread⟩
  have hpos : ts ≠ [] := by
    rintro rfl
    exact hne hts.symm
  have := List.length_pos_iff.mpr hpos
  omega

/-- Where nothing goes on behind it, the tokens of an expression are read at every level. -/
theorem Reads.expression {e : Expr} (h : Reads e) (hts : ts.map Token.shape = e.shapes) {n : Nat}
    (hn : ts.length < n) (level : Precedence) (hlevel : level.rank ≤ Precedence.unary.rank)
    (hrest : Stops rest) :
    ∃ e', e'.unplaced = e.unplaced ∧ expression n level (ts ++ rest) = .ok e' rest := by
  obtain ⟨n, rfl⟩ : ∃ m, n = m + 1 := ⟨n - 1, by omega⟩
  obtain ⟨e', left, hsame, hleft, hread⟩ :=
    h ts hts n (by omega) level hlevel n (by omega) rest
  -- Fewer turns are used up than there are tokens, so one is left to see that nothing goes on.
  obtain ⟨left, rfl⟩ : ∃ m, left = m + 1 := ⟨left - 1, by omega⟩
  exact ⟨e', hsame, hread.trans (climb_of_stops hrest)⟩

/-- An operand between parentheses. -/
theorem operand_parens {n : Nat} {left right : Token} {inner : List Token} {e : Expr}
    (hleft : left.kind = .leftParen) (hright : right.kind = .rightParen)
    (h : Parser.expression n .lowest (inner ++ right :: rest) = .ok e (right :: rest)) :
    operand n (Parser.expression n) (left :: (inner ++ right :: rest)) = .ok e rest := by
  obtain ⟨kind, literal, position⟩ := left
  cases hleft
  exact (bind_of_ok h).trans (bind_of_ok (expect_of_kind hright))

/-- What stands between parentheses is one operand. -/
theorem readsOperand_of_enclosed {e : Expr} {inner : List Shape} (he : e.shapes = enclosed inner)
    (h : ∀ ts : List Token, ts.map Token.shape = inner → ∀ n, ts.length < n → ∀ rest, Stops rest →
      ∃ e', e'.unplaced = e.unplaced ∧ Parser.expression n .lowest (ts ++ rest) = .ok e' rest) :
    ReadsOperand e := by
  intro ts hts n hn rest
  obtain ⟨left, mid, right, rfl, hleft, hright, hmid⟩ := map_shape_enclosed (hts.trans he)
  have hlen : mid.length < n := by
    simp only [List.length_cons, List.length_append, List.length_nil] at hn
    omega
  have hstops : Stops (right :: rest) := stops_cons (by rw [hright]; rfl)
  obtain ⟨e', hsame, hread⟩ := h mid hmid n hlen (right :: rest) hstops
  refine ⟨e', hsame, ?_⟩
  rw [List.cons_append, List.append_assoc]
  exact operand_parens hleft hright hread

/-! ## Lists -/

section Lists

variable {item : Parser α} {closing : TokenKind} {turns : Nat} {token : Token}
  {more next : List Token} {a : α}

/-- An item at the end of a list. -/
theorem commaList_last (htoken : token.kind ≠ closing) {close : Token}
    (hitem : item (token :: more) = .ok a (close :: rest)) (hcomma : closing ≠ .comma)
    (hclose : close.kind = closing) :
    commaList item closing (turns + 1) (token :: more) = .ok [a] rest := by
  have hne : close.kind ≠ .comma := hclose ▸ hcomma
  exact (bind_of_ok (eat_of_ne htoken)).trans ((bind_of_ok hitem).trans
    ((bind_of_ok (eat_of_ne hne)).trans (bind_of_ok (expect_of_kind hclose))))

/-- An item with a comma behind it. -/
theorem commaList_more (htoken : token.kind ≠ closing) {comma : Token}
    (hitem : item (token :: more) = .ok a (comma :: next)) (hcomma : comma.kind = .comma)
    {as : List α} (hnext : commaList item closing turns next = .ok as rest) :
    commaList item closing (turns + 1) (token :: more) = .ok (a :: as) rest :=
  (bind_of_ok (eat_of_ne htoken)).trans ((bind_of_ok hitem).trans
    ((bind_of_ok (eat_of_kind hcomma)).trans (bind_of_ok hnext)))

end Lists

/-- Items of a list, each of them read from tokens of the given shapes. What matters of an item is
`view` of it. -/
inductive Items {γ : Type} (item : Parser α) (view : α → γ) (closing : TokenKind) :
    List (List Shape) → List γ → Prop where
  | nil : Items item view closing [] []
  | cons {kind : TokenKind} {literal : String} {more : List Shape} {others : List (List Shape)}
      {c : γ} {cs : List γ} (hkind : kind ≠ closing)
      (h : ∀ ts : List Token, ts.map Token.shape = (kind, literal) :: more → ∀ rest, Stops rest →
        ∃ a, view a = c ∧ item (ts ++ rest) = .ok a rest)
      (ht : Items item view closing others cs) :
      Items item view closing (((kind, literal) :: more) :: others) (c :: cs)

namespace Items

variable {γ : Type} {item : Parser α} {view : α → γ} {closing : TokenKind}
  {shapes : List (List Shape)} {cs : List γ}

/-- No item is without tokens. -/
theorem length_le (h : Items item view closing shapes cs) :
    shapes.length ≤ (separated shapes).length := by
  induction h with
  | nil => exact Nat.le_refl _
  | cons hkind hread ht ih =>
    cases ht with
    | nil => simp [separated]
    | cons hkind' hread' ht' =>
      simp only [separated, List.length_cons, List.length_append] at ih ⊢
      omega

/-- A list is read up to its closing token. -/
theorem commaList (h : Items item view closing shapes cs) (hcomma : closing ≠ .comma)
    (hlowest : Precedence.of closing = .lowest) {close : Token} (hclose : close.kind = closing)
    {turns : Nat} (hturns : shapes.length < turns) (hts : ts.map Token.shape = separated shapes) :
    ∃ as : List α, as.map view = cs ∧
      commaList item closing turns (ts ++ close :: rest) = .ok as rest := by
  induction h generalizing ts turns with
  | nil =>
    obtain ⟨turns, rfl⟩ : ∃ m, turns = m + 1 := ⟨turns - 1, by omega⟩
    obtain rfl : ts = [] := List.map_eq_nil_iff.mp hts
    exact ⟨[], rfl, bind_of_ok (eat_of_kind hclose)⟩
  | @cons kind literal more others c cs hkind hread ht ih =>
    obtain ⟨turns, rfl⟩ : ∃ m, turns = m + 1 := ⟨turns - 1, by omega⟩
    cases ht with
    | nil =>
      obtain ⟨a, ha, hitem⟩ := hread ts hts (close :: rest) (stops_cons (hclose ▸ hlowest))
      obtain ⟨token, more, rfl, htoken, -, -⟩ := map_shape_cons hts
      exact ⟨[a], by rw [List.map_singleton, ha],
        commaList_last (htoken ▸ hkind) hitem hcomma hclose⟩
    | cons hkind' hread' ht' =>
      obtain ⟨first, tail, rfl, hfirst, htail⟩ := List.map_eq_append_iff.mp hts
      obtain ⟨comma, next, rfl, hc, -, hnext⟩ := map_shape_cons htail
      obtain ⟨as, has, hlist⟩ := ih (Nat.lt_of_succ_lt_succ hturns) hnext
      obtain ⟨a, ha, hitem⟩ := hread first hfirst (comma :: (next ++ close :: rest))
        (stops_cons (by rw [hc]; rfl))
      obtain ⟨token, more, rfl, htoken, -, -⟩ := map_shape_cons hfirst
      refine ⟨a :: as, by rw [List.map_cons, ha, has], ?_⟩
      rw [List.append_assoc]
      exact commaList_more (htoken ▸ hkind) hitem hc hlist

end Items

theorem length_le_separated {shapes : List (List Shape)} {s : List Shape} (h : s ∈ shapes) :
    s.length ≤ (separated shapes).length := by
  induction shapes with
  | nil => cases h
  | cons first others ih =>
    cases others with
    | nil =>
      rw [List.mem_singleton.mp h]
      exact Nat.le_refl _
    | cons second others =>
      simp only [separated, List.length_append, List.length_cons]
      rcases List.mem_cons.mp h with rfl | hmem
      · omega
      · have := ih hmem
        omega

/-- The kinds of token that an expression starts with. -/
def operandKinds : List TokenKind :=
  [.int, .string, .trueWord, .falseWord, .nullWord, .name, .leftParen, .leftBracket, .leftBrace]

theorem shapes_start {e : Expr} (h : Canonical e) :
    ∃ kind literal more, e.shapes = (kind, literal) :: more ∧ kind ∈ operandKinds := by
  induction h with
  | integer hv p | string hv p | null p | identifier hn p =>
    exact ⟨_, _, _, rfl, by decide⟩
  | boolean value p => cases value <;> exact ⟨_, _, _, rfl, by decide⟩
  | unary op _ p | binary op _ _ p | step op _ p | assign _ _ _ _ p | index _ _ p | array _ p
  | hash _ _ p | ternary _ _ _ p | elvis _ _ p | scopeAccess _ _ p =>
    exact ⟨_, _, _, rfl, by decide⟩
  | call _ _ p ih _ | methodCall _ _ _ p ih _ =>
    obtain ⟨kind, literal, more, hshapes, hkind⟩ := ih
    exact ⟨kind, literal, _, congrArg (· ++ _) hshapes, hkind⟩

/-- The items of a list of expressions. -/
theorem items_exprs {es : List Expr} (hc : ∀ e ∈ es, Canonical e) (hr : ∀ e ∈ es, Reads e)
    {closing : TokenKind} (hclosing : closing ∉ operandKinds) {n : Nat}
    (hn : ∀ s ∈ exprShapes es, s.length < n) :
    Items (Parser.expression n .lowest) Expr.unplaced closing (exprShapes es)
      (unplacedExprs es) := by
  induction es with
  | nil => exact .nil
  | cons e es ih =>
    obtain ⟨kind, literal, more, hshapes, hkind⟩ := shapes_start (hc e (by simp))
    have htail := ih (fun e' he => hc e' (by simp [he])) (fun e' he => hr e' (by simp [he]))
      fun s hs => hn s (List.mem_cons_of_mem _ hs)
    have hlen := hn e.shapes List.mem_cons_self
    change Items _ _ _ (e.shapes :: exprShapes es) (e.unplaced :: unplacedExprs es)
    rw [hshapes]
    refine .cons (fun heq => hclosing (heq ▸ hkind)) (fun ts hts rest hrest => ?_) htail
    rw [← hshapes] at hts
    rw [← hts, List.length_map] at hlen
    exact (hr e (by simp)).expression hts hlen .lowest (by decide) hrest

/-- A pair of a hash. -/
theorem hashPair_of_reads {k v : Expr} (hk : Reads k) (hv : Reads v) {n : Nat}
    (hts : ts.map Token.shape = k.shapes ++ TokenKind.colon.shape :: v.shapes)
    (hn : ts.length < n) (hrest : Stops rest) :
    ∃ q : Expr × Expr, (q.1.unplaced, q.2.unplaced) = (k.unplaced, v.unplaced) ∧
      hashPair (Parser.expression n) (ts ++ rest) = .ok q rest := by
  obtain ⟨key, tail, rfl, hkey, htail⟩ := List.map_eq_append_iff.mp hts
  obtain ⟨colon, value, rfl, hcolon, -, hvalue⟩ := map_shape_cons htail
  simp only [List.length_append, List.length_cons] at hn
  have hstops : Stops (colon :: (value ++ rest)) := stops_cons (by rw [hcolon]; rfl)
  have hkn : key.length < n := by omega
  have hvn : value.length < n := by omega
  obtain ⟨k', hsame, hreadk⟩ := hk.expression hkey hkn .lowest (by decide) hstops
  obtain ⟨v', hsame', hreadv⟩ := hv.expression hvalue hvn .lowest (by decide) hrest
  refine ⟨(k', v'), by rw [hsame, hsame'], ?_⟩
  rw [List.append_assoc]
  exact (bind_of_ok hreadk).trans ((bind_of_ok (expect_of_kind hcolon)).trans
    (bind_of_ok hreadv))

/-- The items of a hash. -/
theorem items_pairs {pairs : List (Expr × Expr)} (hc : ∀ q ∈ pairs, Canonical q.1)
    (hk : ∀ q ∈ pairs, Reads q.1) (hv : ∀ q ∈ pairs, Reads q.2) {n : Nat}
    (hn : ∀ s ∈ pairShapes pairs, s.length < n) :
    Items (hashPair (Parser.expression n)) (fun q => (q.1.unplaced, q.2.unplaced)) .rightBrace
      (pairShapes pairs) (unplacedPairs pairs) := by
  induction pairs with
  | nil => exact .nil
  | cons q pairs ih =>
    obtain ⟨kind, literal, more, hshapes, hkind⟩ := shapes_start (hc q (by simp))
    have htail := ih (fun r h => hc r (by simp [h])) (fun r h => hk r (by simp [h]))
      (fun r h => hv r (by simp [h])) fun s hs => hn s (List.mem_cons_of_mem _ hs)
    have hlen := hn (q.1.shapes ++ TokenKind.colon.shape :: q.2.shapes) List.mem_cons_self
    change Items _ _ _ ((q.1.shapes ++ TokenKind.colon.shape :: q.2.shapes) :: pairShapes pairs)
      ((q.1.unplaced, q.2.unplaced) :: unplacedPairs pairs)
    rw [hshapes, List.cons_append]
    refine .cons (fun heq => absurd (heq ▸ hkind) (by decide)) (fun ts hts rest hrest => ?_) htail
    rw [← List.cons_append, ← hshapes] at hts
    rw [← hts, List.length_map] at hlen
    exact hashPair_of_reads (hk q (by simp)) (hv q (by simp)) hts hlen hrest

/-! ## Operands -/

/-- A literal that is not negative stands for the integer that it was written for. -/
theorem integerLiteral?_toString {value : Int64} (h : 0 ≤ value.toInt) :
    integerLiteral? (toString value.toInt) = some value := by
  obtain ⟨n, hn, htext⟩ := integerText_digits h
  obtain ⟨c, cs, hdigits, -, hcs⟩ := digits_cons n
  have hvalue : Decimal.ofDigits (Nat.toDigits 10 n) = n := Nat.ofDigitChars_ten_toDigits
  have hnot (x : Char) (hx : x.isDigit = false) (rest : List Char) : cs ≠ x :: rest := by
    rintro rfl
    rw [hcs x (by simp)] at hx
    cases hx
  unfold integerLiteral?
  rw [htext, hdigits]
  split
  · rename_i heq
    exact absurd (List.cons.inj heq).2 (hnot 'x' rfl _)
  · rename_i heq
    exact absurd (List.cons.inj heq).2 (hnot 'X' rfl _)
  · rw [← hdigits, hvalue, ← hn]
    exact Integer.ofExact?_eq_some_iff.mpr rfl

/-- A token that stands for itself is one operand. -/
theorem readsOperand_of_atom {e : Expr} {kind : TokenKind} {literal : String}
    (hshapes : e.shapes = [(kind, literal)])
    (h : ∀ position, ∃ e' : Expr, e'.unplaced = e.unplaced ∧
      atom? ⟨kind, literal, position⟩ = some (.ok e')) : ReadsOperand e := by
  intro ts hts n _ rest
  obtain ⟨⟨_, _, position⟩, more, rfl, rfl, rfl, hmore⟩ := map_shape_cons (hts.trans hshapes)
  obtain rfl : more = [] := List.map_eq_nil_iff.mp hmore
  obtain ⟨e', hsame, hatom⟩ := h position
  refine ⟨e', hsame, ?_⟩
  simp only [List.singleton_append, operand, hatom]

theorem readsOperand_integer {value : Int64} (h : 0 ≤ value.toInt) (p : Position) :
    ReadsOperand (.integer value p) := by
  refine readsOperand_of_atom rfl fun position => ⟨.integer value position, rfl, ?_⟩
  simp only [atom?, integerLiteral?_toString h]

theorem readsOperand_identifier (name : String) (p : Position) :
    ReadsOperand (.identifier name p) :=
  readsOperand_of_atom rfl fun position => ⟨.identifier name position, rfl, rfl⟩

/-- The expressions of a list, up to the token that closes it. -/
theorem commaList_exprs {es : List Expr} (hc : ∀ e ∈ es, Canonical e) (hr : ∀ e ∈ es, Reads e)
    {closing : TokenKind} (hclosing : closing ∈ [.rightParen, .rightBracket]) {close : Token}
    (hclose : close.kind = closing) {n : Nat}
    (hts : ts.map Token.shape = separated (exprShapes es)) (hn : ts.length < n) :
    ∃ as : List Expr, unplacedExprs as = unplacedExprs es ∧
      commaList (Parser.expression n .lowest) closing n (ts ++ close :: rest) = .ok as rest := by
  have hlen : (separated (exprShapes es)).length < n := by
    rw [← hts, List.length_map]
    exact hn
  have hkind : closing ∉ operandKinds ∧ closing ≠ .comma ∧ Precedence.of closing = .lowest := by
    simp only [List.mem_cons, List.not_mem_nil, or_false] at hclosing
    rcases hclosing with rfl | rfl <;> decide
  have hitems := items_exprs hc hr hkind.1 fun s hs =>
    Nat.lt_of_le_of_lt (length_le_separated hs) hlen
  obtain ⟨as, has, hlist⟩ := hitems.commaList hkind.2.1 hkind.2.2 hclose
    (Nat.lt_of_le_of_lt hitems.length_le hlen) hts
  exact ⟨as, by rw [unplacedExprs_eq_map, has], hlist⟩

theorem readsOperand_array {es : List Expr} (hc : ∀ e ∈ es, Canonical e) (hr : ∀ e ∈ es, Reads e)
    (p : Position) : ReadsOperand (.array es p) := by
  intro ts hts n hn rest
  obtain ⟨⟨kind, literal, position⟩, more, rfl, rfl, -, hmore⟩ := map_shape_cons hts
  obtain ⟨mid, close, rfl, hmid, hclose⟩ := map_shape_last hmore
  simp only [List.length_cons, List.length_append, List.length_nil] at hn
  have hmn : mid.length < n := by omega
  obtain ⟨as, has, hlist⟩ := commaList_exprs hc hr (by decide) hclose hmid hmn
  refine ⟨.array as position, by simp [has], ?_⟩
  rw [List.cons_append, List.append_assoc]
  exact bind_of_ok hlist

theorem readsOperand_hash {pairs : List (Expr × Expr)} (hc : ∀ q ∈ pairs, Canonical q.1)
    (hk : ∀ q ∈ pairs, Reads q.1) (hv : ∀ q ∈ pairs, Reads q.2) (p : Position) :
    ReadsOperand (.hash pairs p) := by
  intro ts hts n hn rest
  obtain ⟨⟨kind, literal, position⟩, more, rfl, rfl, -, hmore⟩ := map_shape_cons hts
  obtain ⟨mid, close, rfl, hmid, hclose⟩ := map_shape_last hmore
  have hlen : (separated (pairShapes pairs)).length < n := by
    rw [← hmid, List.length_map]
    simp only [List.length_cons, List.length_append, List.length_nil] at hn
    omega
  have hitems := items_pairs hc hk hv fun s hs =>
    Nat.lt_of_le_of_lt (length_le_separated hs) hlen
  obtain ⟨as, has, hlist⟩ := hitems.commaList (by decide) rfl hclose
    (Nat.lt_of_le_of_lt hitems.length_le hlen) hmid
  have hsame : unplacedPairs as = unplacedPairs pairs := by rw [unplacedPairs_eq_map, has]
  refine ⟨.hash as position, by simp [hsame], ?_⟩
  rw [List.cons_append, List.append_assoc]
  exact bind_of_ok hlist

theorem readsOperand_unary {operand : Expr} (h : Reads operand) (op : UnaryOp) (p : Position) :
    ReadsOperand (.unary op operand p) := by
  refine readsOperand_of_enclosed rfl fun ts hts n hn rest hrest => ?_
  obtain ⟨⟨kind, literal, position⟩, more, rfl, rfl, -, hmore⟩ := map_shape_cons hts
  obtain ⟨n, rfl⟩ : ∃ m, n = m + 2 := ⟨n - 2, by simp only [List.length_cons] at hn; omega⟩
  simp only [List.length_cons] at hn
  have hmn : more.length < n + 1 := by omega
  obtain ⟨e', hsame, hread⟩ := h.expression hmore hmn .unary (Nat.le_refl _) hrest
  refine ⟨.unary op e' position, by simp [hsame], ?_⟩
  have hoperand : Parser.operand (n + 1) (Parser.expression (n + 1))
      (⟨op.kind, literal, position⟩ :: (more ++ rest)) = .ok (.unary op e' position) rest := by
    cases op <;> exact bind_of_ok hread
  exact (bind_of_ok hoperand).trans (climb_of_stops hrest)

/-! ## Going on behind an operand -/

/-- Behind the tokens of `e`, a token of the given kind and the tokens behind that make `whole` of
it, if what is left of the tokens is as it has to be. -/
def Continues (Left : List Token → Prop) (e whole : Expr) (kind : TokenKind) (tail : List Shape) :
    Prop :=
  ∀ (token : Token) (more : List Token), token.kind = kind → more.map Token.shape = tail →
  ∀ n, more.length < n → ∀ rest, Left rest → ∀ e' : Expr, e'.unplaced = e.unplaced →
    ∃ whole', whole'.unplaced = whole.unplaced ∧
      continued n (Parser.expression n) e' token (more ++ rest) = .ok whole' rest

/-- An operator behind an expression, both between parentheses. -/
theorem readsOperand_of_continues {e whole : Expr} {kind : TokenKind} {tail : List Shape}
    (hshapes : whole.shapes = enclosed (e.shapes ++ kind.shape :: tail)) (he : Reads e)
    (hkind : Precedence.lowest < Precedence.of kind) (h : Continues Stops e whole kind tail) :
    ReadsOperand whole := by
  refine readsOperand_of_enclosed hshapes fun ts hts n hn rest hrest => ?_
  obtain ⟨first, others, rfl, hfirst, hothers⟩ := List.map_eq_append_iff.mp hts
  obtain ⟨token, more, rfl, htoken, -, hmore⟩ := map_shape_cons hothers
  obtain ⟨n, rfl⟩ : ∃ m, n = m + 1 := ⟨n - 1, by omega⟩
  simp only [List.length_append, List.length_cons] at hn
  obtain ⟨e', left, hsame, hleft, hread⟩ := he first hfirst n (by omega) .lowest (by decide) n
    (by omega) (token :: (more ++ rest))
  -- One turn is for the operator, and one to see that nothing goes on behind it.
  obtain ⟨left, rfl⟩ : ∃ m, left = m + 2 := ⟨left - 2, by omega⟩
  obtain ⟨whole', hwhole, hcontinued⟩ := h token more htoken hmore n (by omega) rest hrest e' hsame
  refine ⟨whole', hwhole, ?_⟩
  calc Parser.expression (n + 1) .lowest (first ++ token :: more ++ rest)
      = Parser.expression (n + 1) .lowest (first ++ token :: (more ++ rest)) := by
        rw [List.append_assoc, List.cons_append]
    _ = climb n (Parser.expression n) .lowest (left + 2) e' (token :: (more ++ rest)) := hread
    _ = (continued n (Parser.expression n) e' token >>=
          climb n (Parser.expression n) .lowest (left + 1)) (more ++ rest) :=
        climb_of_lt (htoken ▸ hkind)
    _ = climb n (Parser.expression n) .lowest (left + 1) whole' rest := bind_of_ok hcontinued
    _ = .ok whole' rest := climb_of_stops hrest

/-- A call or an access behind an expression, which goes on at every level. -/
theorem reads_of_continues {e whole : Expr} {kind : TokenKind} {tail : List Shape}
    (hshapes : whole.shapes = e.shapes ++ kind.shape :: tail) (he : Reads e)
    (hkind : Precedence.of kind = .call) (h : Continues (fun _ => True) e whole kind tail) :
    Reads whole := by
  intro ts hts n hn level hlevel turns hturns rest
  obtain ⟨first, others, rfl, hfirst, hothers⟩ := List.map_eq_append_iff.mp (hts.trans hshapes)
  obtain ⟨token, more, rfl, htoken, -, hmore⟩ := map_shape_cons hothers
  simp only [List.length_append, List.length_cons] at hn hturns ⊢
  obtain ⟨e', left, hsame, hleft, hread⟩ := he first hfirst n (by omega) level hlevel turns
    (by omega) (token :: (more ++ rest))
  obtain ⟨left, rfl⟩ : ∃ m, left = m + 1 := ⟨left - 1, by omega⟩
  obtain ⟨whole', hwhole, hcontinued⟩ :=
    h token more htoken hmore n (by omega) rest trivial e' hsame
  -- A call binds tighter than every operator that `e` can be an operand of.
  have hlt : level < Precedence.of token.kind := by
    rw [htoken, hkind]
    exact Nat.lt_of_le_of_lt hlevel (by decide)
  refine ⟨whole', left, hwhole, by omega, ?_⟩
  rw [List.append_assoc, List.cons_append, hread, climb_of_lt hlt]
  exact bind_of_ok hcontinued

/-! ## Operators between operands -/

theorem binaryOp?_kind (op : BinaryOp) : op.kind.binaryOp? = some op := by
  cases op <;> rfl

theorem lowest_lt_kind (op : BinaryOp) : Precedence.lowest < Precedence.of op.kind := by
  cases op <;> decide

theorem rightOperand_le (op : BinaryOp) :
    (Precedence.of op.kind).rightOperand.rank ≤ Precedence.unary.rank := by
  cases op <;> decide

theorem readsOperand_binary {l r : Expr} (hl : Reads l) (hr : Reads r) (op : BinaryOp)
    (p : Position) : ReadsOperand (.binary op l r p) := by
  refine readsOperand_of_continues rfl hl (lowest_lt_kind op) ?_
  intro token more htoken hmore n hn rest hrest l' hl'
  obtain ⟨r', hr', hread⟩ := hr.expression hmore hn _ (rightOperand_le op) hrest
  refine ⟨.binary op l' r' token.position, ?_, ?_⟩
  · simp [hl', hr']
  · unfold continued
    simp only [htoken, binaryOp?_kind]
    exact bind_of_ok hread

theorem readsOperand_elvis {l r : Expr} (hl : Reads l) (hr : Reads r) (p : Position) :
    ReadsOperand (.elvis l r p) := by
  refine readsOperand_of_continues rfl hl (by decide) ?_
  rintro ⟨_, literal, position⟩ more rfl hmore n hn rest hrest l' hl'
  obtain ⟨r', hr', hread⟩ := hr.expression hmore hn .assign (by decide) hrest
  refine ⟨.elvis l' r' position, ?_, bind_of_ok hread⟩
  simp [hl', hr']

theorem readsOperand_ternary {c t e : Expr} (hc : Reads c) (ht : Reads t) (he : Reads e)
    (p : Position) : ReadsOperand (.ternary c t e p) := by
  refine readsOperand_of_continues rfl hc (by decide) ?_
  rintro ⟨_, literal, position⟩ more rfl hmore n hn rest hrest c' hc'
  obtain ⟨tts, others, rfl, htts, hothers⟩ := List.map_eq_append_iff.mp hmore
  obtain ⟨colon, ets, rfl, hcolon, -, hets⟩ := map_shape_cons hothers
  simp only [List.length_append, List.length_cons] at hn
  have htn : tts.length < n := by omega
  have hen : ets.length < n := by omega
  have hstops : Stops (colon :: (ets ++ rest)) := stops_cons (by rw [hcolon]; rfl)
  obtain ⟨t', ht', hreadt⟩ := ht.expression htts htn .lowest (by decide) hstops
  obtain ⟨e', he', hreade⟩ := he.expression hets hen .assign (by decide) hrest
  refine ⟨.ternary c' t' e' position, ?_, ?_⟩
  · simp [hc', ht', he']
  · rw [List.append_assoc]
    exact (bind_of_ok hreadt).trans ((bind_of_ok (expect_of_kind hcolon)).trans (bind_of_ok hreade))

theorem readsOperand_index {c k : Expr} (hc : Reads c) (hk : Reads k) (p : Position) :
    ReadsOperand (.index c k p) := by
  refine readsOperand_of_continues rfl hc (by decide) ?_
  rintro ⟨_, literal, position⟩ more rfl hmore n hn rest hrest c' hc'
  obtain ⟨kts, close, rfl, hkts, hclose⟩ := map_shape_last hmore
  simp only [List.length_append, List.length_cons, List.length_nil] at hn
  have hkn : kts.length < n := by omega
  have hstops : Stops (close :: rest) := stops_cons (by rw [hclose]; rfl)
  obtain ⟨k', hk', hread⟩ := hk.expression hkts hkn .lowest (by decide) hstops
  refine ⟨.index c' k' position, ?_, ?_⟩
  · simp [hc', hk']
  · rw [List.append_assoc]
    exact (bind_of_ok hread).trans (bind_of_ok (expect_of_kind hclose))

theorem isTarget_unplaced (e : Expr) : isTarget e.unplaced = isTarget e := by
  cases e <;> rfl

theorem identifier_of_unplaced {e : Expr} {name : String} {p : Position}
    (h : e.unplaced = (Expr.identifier name p).unplaced) : ∃ q, e = .identifier name q := by
  cases e <;> cases h
  exact ⟨_, rfl⟩

/-- The sign of an assignment starts an assignment with its operator. -/
theorem continued_assign {op : Option BinaryOp}
    (hop : op ∈ [none, some .add, some .sub, some .mul, some .div]) {token : Token}
    (htoken : token.kind = assignKind op) (n : Nat) (expr : ExprParser) (target : Expr) :
    compoundOp? (assignKind op) = op ∧
      continued n expr target token = assignment expr target (assignKind op) token.position := by
  obtain ⟨_, literal, position⟩ := token
  cases htoken
  simp only [List.mem_cons, List.not_mem_nil, or_false] at hop
  rcases hop with rfl | rfl | rfl | rfl | rfl <;> exact ⟨rfl, rfl⟩

theorem lowest_lt_assignKind (op : Option BinaryOp) :
    Precedence.lowest < Precedence.of (assignKind op) := by
  rcases op with _ | op
  · decide
  · cases op <;> decide

theorem readsOperand_assign {t v : Expr} {op : Option BinaryOp} (ht : Reads t)
    (htarget : isTarget t = true) (hop : op ∈ [none, some .add, some .sub, some .mul, some .div])
    (hv : Reads v) (p : Position) : ReadsOperand (.assign t op v p) := by
  refine readsOperand_of_continues rfl ht (lowest_lt_assignKind op) ?_
  intro token more htoken hmore n hn rest hrest t' ht'
  obtain ⟨hcompound, hcontinued⟩ := continued_assign hop htoken n (Parser.expression n) t'
  obtain ⟨v', hv', hread⟩ := hv.expression hmore hn .lowest (by decide) hrest
  have hright : isTarget t' = true := by rw [← isTarget_unplaced, ht', isTarget_unplaced, htarget]
  refine ⟨.assign t' op v' token.position, by simp [ht', hv'], ?_⟩
  rw [hcontinued]
  unfold assignment
  rw [if_pos hright, hcompound]
  exact bind_of_ok hread

theorem readsOperand_step (op : StepOp) (name : String) (p : Position) :
    ReadsOperand (.step op name p) := by
  have hname := (readsOperand_identifier name p).reads (List.cons_ne_nil _ _)
  refine readsOperand_of_continues (e := .identifier name p) rfl hname (by cases op <;> decide) ?_
  rintro ⟨_, literal, position⟩ more rfl hmore n hn rest hrest e' he'
  obtain rfl : more = [] := List.map_eq_nil_iff.mp hmore
  obtain ⟨q, rfl⟩ := identifier_of_unplaced he'
  exact ⟨.step op name position, rfl, by cases op <;> rfl⟩

/-! ## Calls and accesses -/

theorem arguments_exprs {es : List Expr} (hc : ∀ e ∈ es, Canonical e) (hr : ∀ e ∈ es, Reads e)
    {n : Nat} (hts : ts.map Token.shape = separated (exprShapes es) ++ [TokenKind.rightParen.shape])
    (hn : ts.length < n) :
    ∃ as : List Expr, unplacedExprs as = unplacedExprs es ∧
      arguments n (Parser.expression n) (ts ++ rest) = .ok as rest := by
  obtain ⟨mid, close, rfl, hmid, hclose⟩ := map_shape_last hts
  simp only [List.length_append, List.length_cons, List.length_nil] at hn
  have hmn : mid.length < n := by omega
  rw [List.append_assoc]
  exact commaList_exprs hc hr (by decide) hclose hmid hmn

theorem reads_call {f : Expr} {args : List Expr} (hf : Reads f) (hc : ∀ a ∈ args, Canonical a)
    (ha : ∀ a ∈ args, Reads a) (p : Position) : Reads (.call f args p) := by
  refine reads_of_continues rfl hf rfl ?_
  rintro ⟨_, literal, position⟩ more rfl hmore n hn rest - f' hf'
  obtain ⟨as, has, hread⟩ := arguments_exprs hc ha hmore hn
  refine ⟨.call f' as position, ?_, bind_of_ok hread⟩
  simp [hf', has]

theorem reads_methodCall {r : Expr} {args : List Expr} (hr : Reads r) (method : String)
    (hc : ∀ a ∈ args, Canonical a) (ha : ∀ a ∈ args, Reads a) (p : Position) :
    Reads (.methodCall r method args p) := by
  refine reads_of_continues rfl hr rfl ?_
  rintro ⟨_, literal, position⟩ more rfl hmore n hn rest - r' hr'
  obtain ⟨name, others, rfl, hname, rfl, hothers⟩ := map_shape_cons hmore
  obtain ⟨paren, ats, rfl, hparen, -, hats⟩ := map_shape_cons hothers
  simp only [List.length_cons] at hn
  have han : ats.length < n := by omega
  obtain ⟨as, has, hread⟩ := arguments_exprs hc ha hats han
  refine ⟨.methodCall r' name.literal as position, ?_, ?_⟩
  · simp [hr', has]
  · exact (bind_of_ok (identifier_of_kind hname)).trans ((bind_of_ok (expect_of_kind hparen)).trans
      (bind_of_ok hread))

theorem reads_scopeAccess (name branch : String) (p : Position) :
    Reads (.scopeAccess name branch p) := by
  have hname := (readsOperand_identifier name p).reads (List.cons_ne_nil _ _)
  refine reads_of_continues (e := .identifier name p) rfl hname rfl ?_
  rintro ⟨_, literal, position⟩ more rfl hmore n hn rest - e' he'
  obtain ⟨word, others, rfl, hword, rfl, hothers⟩ := map_shape_cons hmore
  obtain rfl : others = [] := List.map_eq_nil_iff.mp hothers
  obtain ⟨q, rfl⟩ := identifier_of_unplaced he'
  exact ⟨.scopeAccess name word.literal position, rfl, bind_of_ok (identifier_of_kind hword)⟩

/-- The tokens of an expression are read as the expression, up to places. -/
theorem reads {e : Expr} (h : Canonical e) : Reads e := by
  induction h with
  | integer hv p => exact (readsOperand_integer hv p).reads (List.cons_ne_nil _ _)
  | @string value hv p =>
    have hatom : ReadsOperand (.string value p) :=
      readsOperand_of_atom rfl fun q => ⟨.string value q, rfl, rfl⟩
    exact hatom.reads (List.cons_ne_nil _ _)
  | boolean value p =>
    have hatom : ReadsOperand (.boolean value p) :=
      readsOperand_of_atom rfl fun q => ⟨.boolean value q, rfl, by cases value <;> rfl⟩
    exact hatom.reads (List.cons_ne_nil _ _)
  | null p =>
    have hatom : ReadsOperand (.null p) :=
      readsOperand_of_atom rfl fun q => ⟨.null q, rfl, rfl⟩
    exact hatom.reads (List.cons_ne_nil _ _)
  | @identifier name hn p => exact (readsOperand_identifier name p).reads (List.cons_ne_nil _ _)
  | unary op ho p ih => exact (readsOperand_unary ih op p).reads (List.cons_ne_nil _ _)
  | binary op hl hr p ihl ihr =>
    exact (readsOperand_binary ihl ihr op p).reads (List.cons_ne_nil _ _)
  | @step op name hn p => exact (readsOperand_step op name p).reads (List.cons_ne_nil _ _)
  | assign ht htarget hop hv p iht ihv =>
    exact (readsOperand_assign iht htarget hop ihv p).reads (List.cons_ne_nil _ _)
  | call hf ha p ihf iha => exact reads_call ihf ha iha p
  | index hc hk p ihc ihk => exact (readsOperand_index ihc ihk p).reads (List.cons_ne_nil _ _)
  | array he p ihe => exact (readsOperand_array he ihe p).reads (List.cons_ne_nil _ _)
  | hash hk hv p ihk ihv =>
    exact (readsOperand_hash hk ihk ihv p).reads (List.cons_ne_nil _ _)
  | ternary hc ht he p ihc iht ihe =>
    exact (readsOperand_ternary ihc iht ihe p).reads (List.cons_ne_nil _ _)
  | elvis hl hr p ihl ihr => exact (readsOperand_elvis ihl ihr p).reads (List.cons_ne_nil _ _)
  | @methodCall receiver method arguments hr hm ha p ihr iha =>
    exact reads_methodCall ihr method ha iha p
  | @scopeAccess name branch hn hb p => exact reads_scopeAccess name branch p

/-- Canonical text reads back: the text of an expression is read as that expression, up to places,
and of its tokens only the end of the text is left. -/
theorem canonical_text_reads_back {e : Expr} (h : Canonical e) :
    ∃ e' finish, parseExpression .lowest (tokenize e.text) =
      .ok e' [⟨.endOfText, "", finish⟩] ∧ e'.unplaced = e.unplaced := by
  obtain ⟨ts, finish, hts, htokens⟩ := h.tokenize
  have hlen : ts.length < (tokenize e.text).length + 1 := by
    rw [htokens, List.length_append]
    omega
  have hstops : Stops [⟨.endOfText, "", finish⟩] := rfl
  obtain ⟨e', hsame, hread⟩ := (reads h).expression hts hlen .lowest (by decide) hstops
  refine ⟨e', finish, ?_, hsame⟩
  unfold parseExpression Rule.parser
  rw [← hread, ← htokens]

/-- The text `f((-1), A::B)` reads back. -/
theorem call_text_reads_back :
    let e : Expr := .call (.identifier "f" .start)
      [.unary .negate (.integer 1 .start) .start, .scopeAccess "A" "B" .start] .start
    Canonical e ∧ ∃ e' finish, parseExpression .lowest (tokenize e.text) =
      .ok e' [⟨.endOfText, "", finish⟩] ∧ e'.unplaced = e.unplaced := by
  intro e
  have hname (c : Char) (hword : TokenKind.keyword? (String.ofList [c]) = none)
      (hc : isNameStart c = true) : IsName (String.ofList [c]) :=
    ⟨hword, c, [], String.toList_ofList, hc, by simp⟩
  have hargs : ∀ a ∈ [Expr.unary .negate (.integer 1 .start) .start, .scopeAccess "A" "B" .start],
      Canonical a := by
    simp only [List.mem_cons, List.not_mem_nil, or_false]
    rintro a (rfl | rfl)
    · exact .unary .negate (.integer (by decide) _) _
    · exact .scopeAccess (hname 'A' rfl rfl) (hname 'B' rfl rfl) _
  have h : Canonical e := .call (.identifier (hname 'f' rfl rfl) _) hargs _
  exact ⟨h, canonical_text_reads_back h⟩

end Parser

end ScriptLang
