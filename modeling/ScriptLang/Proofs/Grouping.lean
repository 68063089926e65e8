-- How operators group. Operands with operators between them can be read as many trees; in one of
-- them every operator has tighter operands, up to the side on which its level groups. That is the
-- tree that is read. At a level, as much of the row is read as has tighter operators.
import Mathlib.Data.List.TakeWhile
import ScriptLang.Proofs.ReadBack

namespace ScriptLang

/-! ## Operators between operands -/

/-- An operator that stands between two operands: a binary operator or `?:`. -/
inductive Connective where
  | binary (op : BinaryOp)
  | elvis

namespace Connective

def kind : Connective → TokenKind
  | binary op => op.kind
  | elvis => .elvis

def level (c : Connective) : Precedence := Precedence.of c.kind

/-- The tree of an operator and its operands. -/
def node (c : Connective) (left right : Expr) (position : Position) : Expr :=
  match c with
  | binary op => .binary op left right position
  | elvis => .elvis left right position

/-- Operators bind less tightly than signs, and all of them bind. -/
theorem level_rank (c : Connective) :
    Precedence.ternary.rank ≤ c.level.rank ∧ c.level.rank ≤ Precedence.power.rank := by
  cases c with
  | binary op => cases op <;> decide
  | elvis => decide

end Connective

/-- The levels whose operators group to the right. -/
def Precedence.groupsRight : Precedence → Bool
  | ternary | power => true
  | _ => false

/-! ## Trees -/

/-- The level of the operator that a tree is made of. -/
def Expr.level? : Expr → Option Precedence
  | .binary op _ _ _ => some (Connective.binary op).level
  | .elvis _ _ _ => some Connective.elvis.level
  | _ => none

theorem Expr.lowest_lt_level {e : Expr} {q : Precedence} (h : e.level? = some q) :
    Precedence.lowest < q := by
  cases e with
  | binary op =>
    cases h
    exact Nat.lt_of_lt_of_le (by decide) (Connective.binary op).level_rank.1
  | elvis =>
    cases h
    decide
  | _ => cases h

@[simp] theorem Connective.level?_node (c : Connective) (left right : Expr)
    (position : Position) : (c.node left right position).level? = some c.level := by
  cases c <;> rfl

/-- An operand may stand on the left of an operator of a level. -/
def Expr.FitsLeft (p : Precedence) (e : Expr) : Prop :=
  ∀ q, e.level? = some q → p < q ∨ q = p ∧ p.groupsRight = false

/-- An operand may stand on the right of an operator of a level. -/
def Expr.FitsRight (p : Precedence) (e : Expr) : Prop :=
  ∀ q, e.level? = some q → p < q ∨ q = p ∧ p.groupsRight = true

/-- In every part of a tree, signs stand before single operands, and operators have operands that
fit. -/
def Expr.Grouped : Expr → Prop
  | .unary _ operand _ => operand.level? = none ∧ operand.Grouped
  | .binary op left right _ =>
    left.FitsLeft (Connective.binary op).level ∧ right.FitsRight (Connective.binary op).level ∧
      left.Grouped ∧ right.Grouped
  | .elvis left right _ =>
    left.FitsLeft Connective.elvis.level ∧ right.FitsRight Connective.elvis.level ∧
      left.Grouped ∧ right.Grouped
  | _ => True

theorem Connective.grouped_node {c : Connective} {left right : Expr} {position : Position} :
    (c.node left right position).Grouped ↔
      left.FitsLeft c.level ∧ right.FitsRight c.level ∧ left.Grouped ∧ right.Grouped := by
  cases c <;> rfl

/-- A token that is an operand by itself. -/
inductive Atom : Token → Expr → Prop
  | name {t : Token} (h : t.kind = .name) : Atom t (.identifier t.literal t.position)
  | string {t : Token} (h : t.kind = .string) : Atom t (.string t.literal t.position)
  | true {t : Token} (h : t.kind = .trueWord) : Atom t (.boolean true t.position)
  | false {t : Token} (h : t.kind = .falseWord) : Atom t (.boolean false t.position)
  | null {t : Token} (h : t.kind = .nullWord) : Atom t (.null t.position)
  | integer {t : Token} {n : Int64} (h : t.kind = .int) (hn : integerLiteral? t.literal = some n) :
      Atom t (.integer n t.position)

theorem Atom.level? {t : Token} {e : Expr} (h : Atom t e) : e.level? = none := by
  cases h <;> rfl

/-- The tokens of a tree from left to right. -/
inductive Expr.Yields : Expr → List Token → Prop
  | atom {t : Token} {e : Expr} (h : Atom t e) : Yields e [t]
  | unary (op : UnaryOp) {t : Token} (ht : t.kind = op.kind) {e : Expr} {ts : List Token}
      (h : Yields e ts) : Yields (.unary op e t.position) (t :: ts)
  | node (c : Connective) {t : Token} (ht : t.kind = c.kind) {left right : Expr}
      {before behind : List Token} (hl : Yields left before) (hr : Yields right behind) :
      Yields (c.node left right t.position) (before ++ t :: behind)

/-! ## Levels of operands -/

namespace Precedence

variable {p q : Precedence}

theorem rank_injective (h : p.rank = q.rank) : p = q := by
  cases p <;> cases q <;> first | rfl | cases h

theorem rightOperand_rank (p : Precedence) :
    p.rightOperand.rank ≤ p.rank ∧ p.rank ≤ p.rightOperand.rank + 1 := by
  cases p <;> decide

theorem rightOperand_mono (h : p.rank ≤ q.rank) : p.rightOperand.rank ≤ q.rightOperand.rank := by
  cases p <;> cases q <;> simp_all [rank, rightOperand]

theorem rightOperand_lt (h : p.groupsRight = true) : p.rightOperand.rank < p.rank := by
  cases p <;> first | decide | cases h

theorem rightOperand_eq (h : p.groupsRight = false) (hp : ternary.rank ≤ p.rank) :
    p.rightOperand.rank = p.rank := by
  cases p <;> first | rfl | exact absurd hp (by decide) | cases h

end Precedence

namespace Expr

variable {e : Expr} {c : Connective} {q : Precedence}

/-- An operand on the left is read up to its operator. -/
theorem FitsLeft.rank_le (h : e.FitsLeft c.level) (hq : e.level? = some q) :
    c.level.rank ≤ q.rightOperand.rank ∧ c.level.rank ≤ q.rank := by
  have hright := q.rightOperand_rank
  rcases h q hq with hlt | ⟨rfl, hgroups⟩
  · have hlt' : c.level.rank < q.rank := hlt
    omega
  · have heq := Precedence.rightOperand_eq hgroups c.level_rank.1
    omega

/-- An operand on the right is read at the level on the right of its operator. -/
theorem FitsRight.rank_lt (h : e.FitsRight c.level) (hq : e.level? = some q) :
    c.level.rightOperand.rank < q.rank ∧ c.level.rank ≤ q.rank := by
  have hright := c.level.rightOperand_rank
  rcases h q hq with hlt | ⟨rfl, hgroups⟩
  · have hlt' : c.level.rank < q.rank := hlt
    omega
  · exact ⟨Precedence.rightOperand_lt hgroups, Nat.le_refl _⟩

end Expr

/-! ## Reading a tree -/

namespace Parser

variable {ts rest : List Token}

theorem atom?_of_atom {t : Token} {e : Expr} (h : Atom t e) : atom? t = some (.ok e) := by
  cases h with
  | integer hkind hn => simp [atom?, hkind, hn]
  | _ hkind => simp [atom?, hkind]

theorem climb_of_not_lt {turns k : Nat} {expr : ExprParser} {level : Precedence} {left : Expr}
    (h : ¬level < Precedence.of (headKind ts)) :
    climb turns expr level (k + 1) left ts = .ok left ts := by
  change (if level < Precedence.of (headKind ts) then _ else _ : Parser Expr) ts = _
  rw [if_neg h]
  rfl

theorem continued_connective {c : Connective} {t : Token} (ht : t.kind = c.kind) {turns : Nat}
    {expr : ExprParser} {left right : Expr}
    (h : expr c.level.rightOperand ts = .ok right rest) :
    continued turns expr left t ts = .ok (c.node left right t.position) rest := by
  cases c with
  | binary op =>
    have hkind : t.kind = op.kind := ht
    unfold continued
    simp only [hkind, binaryOp?_kind]
    exact bind_of_ok h
  | elvis =>
    obtain ⟨_, literal, position⟩ := t
    cases ht
    exact bind_of_ok h

/-- What stands behind a tree does not belong to it: no operator there binds tighter than the
right operand of the tree, or than a sign. -/
structure Ends (e : Expr) (rest : List Token) : Prop where
  sign : ¬Precedence.unary < Precedence.of (headKind rest)
  operand : ∀ q, e.level? = some q → ¬q.rightOperand < Precedence.of (headKind rest)

/-- The tokens of a tree are read as the tree at a level that is lower than the tree's. There are
at least as many levels and turns as tokens, and fewer turns are used up than tokens are read. -/
def ReadsAs (e : Expr) (ts : List Token) : Prop :=
  ∀ n, ts.length ≤ n → ∀ level, (∀ q, e.level? = some q → level < q) →
  ∀ turns, ts.length ≤ turns → ∀ rest, Ends e rest → ∃ left, turns < left + ts.length ∧
    (operand n (expression n) >>= climb n (expression n) level turns) (ts ++ rest) =
      climb n (expression n) level left e rest

theorem ReadsAs.expression {e : Expr} (h : ReadsAs e ts) {n : Nat} (hn : ts.length < n)
    {level : Precedence} (hlevel : ∀ q, e.level? = some q → level < q) (hrest : Ends e rest)
    (hstop : ¬level < Precedence.of (headKind rest)) :
    expression n level (ts ++ rest) = .ok e rest := by
  obtain ⟨n, rfl⟩ : ∃ m, n = m + 1 := ⟨n - 1, by omega⟩
  obtain ⟨left, hleft, hread⟩ := h n (by omega) level hlevel n (by omega) rest hrest
  obtain ⟨left, rfl⟩ : ∃ m, left = m + 1 := ⟨left - 1, by omega⟩
  exact hread.trans (climb_of_not_lt hstop)

theorem readsAs_atom {t : Token} {e : Expr} (h : Atom t e) : ReadsAs e [t] := by
  intro n _ level _ turns _ rest _
  refine ⟨turns, by simp, bind_of_ok ?_⟩
  simp only [List.singleton_append, operand, atom?_of_atom h]

/-- A sign reads one operand, because all operators bind less tightly. -/
theorem ReadsAs.unary {e : Expr} (h : ReadsAs e ts) (hlevel : e.level? = none) (op : UnaryOp)
    {t : Token} (ht : t.kind = op.kind) : ReadsAs (.unary op e t.position) (t :: ts) := by
  intro n hn level _ turns _ rest hrest
  have hnone : ∀ q, e.level? = some q → Precedence.unary < q := by
    intro q hq
    rw [hlevel] at hq
    cases hq
  have hends : Ends e rest := by
    refine ⟨hrest.sign, fun q hq => ?_⟩
    rw [hlevel] at hq
    cases hq
  have hread := h.expression (Nat.lt_of_succ_le hn) hnone hends hrest.sign
  refine ⟨turns, by simp, bind_of_ok ?_⟩
  obtain ⟨_, literal, position⟩ := t
  cases ht
  cases op with
  | negate => exact bind_of_ok hread
  | not => exact bind_of_ok hread

/-- An operator whose operands fit reads both of them. -/
theorem ReadsAs.node {c : Connective} {t : Token} (ht : t.kind = c.kind) {left right : Expr}
    {before behind : List Token} (hl : ReadsAs left before) (hr : ReadsAs right behind)
    (hfl : left.FitsLeft c.level) (hfr : right.FitsRight c.level) :
    ReadsAs (c.node left right t.position) (before ++ t :: behind) := by
  intro n hn level hlevel turns hturns rest hrest
  simp only [List.length_append, List.length_cons] at hn hturns ⊢
  have hof : Precedence.of (headKind (t :: (behind ++ rest))) = c.level := by
    change Precedence.of t.kind = _
    rw [ht]
    rfl
  have hlevel' : level.rank < c.level.rank := hlevel c.level (by simp)
  have hstop : ¬c.level.rightOperand < Precedence.of (headKind rest) :=
    hrest.operand c.level (by simp)
  -- The left operand ends before the operator.
  have hlends : Ends left (t :: (behind ++ rest)) := by
    refine ⟨?_, fun q hq => ?_⟩
    · rw [hof]
      exact Nat.not_lt.mpr (Nat.le_trans c.level_rank.2 (by decide))
    · rw [hof]
      exact Nat.not_lt.mpr (hfl.rank_le hq).1
  -- The right operand ends where the whole tree does.
  have hrends : Ends right rest := by
    refine ⟨hrest.sign, fun q hq => ?_⟩
    have hmono := Precedence.rightOperand_mono (hfr.rank_lt hq).2
    exact Nat.not_lt.mpr (Nat.le_trans (Nat.not_lt.mp hstop) hmono)
  obtain ⟨after, hafter, hread⟩ := hl n (by omega) level
    (fun q hq => Nat.lt_of_lt_of_le hlevel' (hfl.rank_le hq).2) turns (by omega) _ hlends
  obtain ⟨after, rfl⟩ : ∃ m, after = m + 1 := ⟨after - 1, by omega⟩
  have hright := hr.expression (by omega : behind.length < n)
    (fun q hq => (hfr.rank_lt hq).1) hrends hstop
  refine ⟨after, by omega, ?_⟩
  have hlt : level < Precedence.of t.kind := hof ▸ hlevel'
  rw [List.append_assoc, List.cons_append, hread, climb_of_lt hlt]
  exact bind_of_ok (continued_connective ht hright)

/-- The tokens of a tree with operands that fit are read as the tree. The induction is on the
tree. -/
theorem readsAs_of_yields {e : Expr} (hy : e.Yields ts) (hg : e.Grouped) : ReadsAs e ts := by
  induction hy with
  | atom h => exact readsAs_atom h
  | unary op ht _ ih => exact (ih hg.2).unary hg.1 op ht
  | node c ht _ _ ihl ihr =>
    obtain ⟨hfl, hfr, hgl, hgr⟩ := Connective.grouped_node.mp hg
    exact .node ht (ihl hgl) (ihr hgr) hfl hfr

end Parser

/-! ## Rows of operands -/

/-- An operand: a token, perhaps with signs before it. -/
inductive Operand where
  | atom (token : Token) (expr : Expr) (h : Atom token expr)
  | signed (op : UnaryOp) (token : Token) (h : token.kind = op.kind) (operand : Operand)

namespace Operand

def tokens : Operand → List Token
  | atom token _ _ => [token]
  | signed _ token _ operand => token :: operand.tokens

def expr : Operand → Expr
  | atom _ expr _ => expr
  | signed op token _ operand => .unary op operand.expr token.position

theorem level?_expr (o : Operand) : o.expr.level? = none := by
  cases o with
  | atom token e h => exact h.level?
  | signed op token h operand => rfl

theorem grouped (o : Operand) : o.expr.Grouped := by
  induction o with
  | atom token e h => cases h <;> trivial
  | signed op token h operand ih => exact ⟨operand.level?_expr, ih⟩

theorem yields (o : Operand) : o.expr.Yields o.tokens := by
  induction o with
  | atom token e h => exact .atom h
  | signed op token h operand ih => exact .unary op h ih

end Operand

/-- An operator with the operand behind it. -/
structure Link where
  connective : Connective
  token : Token
  kind : token.kind = connective.kind
  operand : Operand

namespace Link

def level (link : Link) : Precedence := link.connective.level

def tokens (link : Link) : List Token := link.token :: link.operand.tokens

/-- The tree with a link that has all of it on its left. -/
def onTop (link : Link) (e : Expr) : Expr :=
  link.connective.node e link.operand.expr link.token.position

/-- The right operand of an operator of a level takes a link in. -/
def GoesInto (link : Link) (p : Precedence) : Prop :=
  p < link.level ∨ link.level = p ∧ p.groupsRight = true

instance (link : Link) (p : Precedence) : Decidable (link.GoesInto p) :=
  inferInstanceAs (Decidable (_ ∨ _))

/-- A link that does not go into a right operand can have the whole tree on its left. -/
theorem fits_of_not_goesInto {link : Link} {p : Precedence} (h : ¬link.GoesInto p) :
    link.level < p ∨ p = link.level ∧ link.level.groupsRight = false := by
  by_cases heq : link.level = p
  · refine Or.inr ⟨heq.symm, ?_⟩
    cases hright : link.level.groupsRight with
    | false => rfl
    | true => exact absurd (Or.inr ⟨heq, heq ▸ hright⟩) h
  · have hle : ¬p.rank < link.level.rank := fun hlt => h (Or.inl hlt)
    have hne : link.level.rank ≠ p.rank := fun hrank => heq (Precedence.rank_injective hrank)
    exact Or.inl (Nat.lt_of_le_of_ne (Nat.not_lt.mp hle) hne)

end Link

/-- Operands with operators between them. -/
structure Row where
  first : Operand
  links : List Link

namespace Row

def linkTokens (links : List Link) : List Token := links.flatMap Link.tokens

def tokens (row : Row) : List Token := row.first.tokens ++ linkTokens row.links

/-- The longest part at the front whose operators all bind tighter than a level. -/
def tighter (row : Row) (p : Precedence) : Row :=
  ⟨row.first, row.links.takeWhile fun link => p < link.level⟩

/-- What stands behind that part. -/
def looser (row : Row) (p : Precedence) : List Link :=
  row.links.dropWhile fun link => p < link.level

theorem tokens_eq (row : Row) (p : Precedence) :
    row.tokens = (row.tighter p).tokens ++ linkTokens (row.looser p) := by
  unfold tokens tighter looser linkTokens
  rw [List.append_assoc, ← List.flatMap_append, List.takeWhile_append_dropWhile]

end Row

/-! ## The tree of a row -/

namespace Expr

/-- Puts a link behind a tree, as far down on the right as it goes. -/
def attach (link : Link) : Expr → Expr
  | .binary op left right position =>
    if link.GoesInto (Connective.binary op).level then
      .binary op left (attach link right) position
    else link.onTop (.binary op left right position)
  | .elvis left right position =>
    if link.GoesInto Connective.elvis.level then .elvis left (attach link right) position
    else link.onTop (.elvis left right position)
  | e => link.onTop e

theorem attach_node (link : Link) (c : Connective) (left right : Expr) (position : Position) :
    (c.node left right position).attach link =
      if link.GoesInto c.level then c.node left (right.attach link) position
      else link.onTop (c.node left right position) := by
  cases c <;> rfl

theorem attach_of_none {e : Expr} (h : e.level? = none) (link : Link) :
    e.attach link = link.onTop e := by
  cases e with
  | binary => cases h
  | elvis => cases h
  | _ => rfl

/-- What holds of a tree with a link put behind it. -/
structure Attached (link : Link) (e : Expr) (ts : List Token) (whole : Expr) : Prop where
  yields : whole.Yields (ts ++ link.tokens)
  grouped : whole.Grouped
  level : whole.level? = some link.level ∨ whole.level? = e.level?

theorem attached_onTop {link : Link} {e : Expr} {ts : List Token} (hy : e.Yields ts)
    (hg : e.Grouped) (hf : e.FitsLeft link.level) : Attached link e ts (link.onTop e) := by
  refine ⟨.node link.connective link.kind hy link.operand.yields, ?_, ?_⟩
  · refine Connective.grouped_node.mpr ⟨hf, ?_, hg, link.operand.grouped⟩
    intro q hq
    rw [link.operand.level?_expr] at hq
    cases hq
  · exact Or.inl (link.connective.level?_node _ _ _)

theorem fitsLeft_of_none {e : Expr} (h : e.level? = none) (p : Precedence) : e.FitsLeft p := by
  intro q hq
  rw [h] at hq
  cases hq

/-- Behind a tree with operands that fit, a link goes to where all operands fit again. -/
theorem Yields.attached {e : Expr} {ts : List Token} (hy : e.Yields ts) (hg : e.Grouped)
    (link : Link) : Attached link e ts (e.attach link) := by
  induction hy with
  | atom h =>
    rw [attach_of_none h.level?]
    exact attached_onTop (.atom h) hg (fitsLeft_of_none h.level? _)
  | unary op ht h _ =>
    rw [attach_of_none rfl]
    exact attached_onTop (.unary op ht h) hg (fitsLeft_of_none rfl _)
  | @node c t ht left right before behind hl hr _ ih =>
    obtain ⟨hfl, hfr, hgl, hgr⟩ := Connective.grouped_node.mp hg
    rw [attach_node]
    split
    · rename_i hgoes
      obtain ⟨hyields, hgrouped, hlevel⟩ := ih hgr
      refine ⟨?_, ?_, Or.inr (by simp)⟩
      · rw [List.append_assoc, List.cons_append]
        exact .node c ht hl hyields
      · refine Connective.grouped_node.mpr ⟨hfl, ?_, hgl, hgrouped⟩
        intro q hq
        rcases hlevel with hlink | hright
        · rw [hlink] at hq
          cases hq
          exact hgoes
        · exact hfr q (hright ▸ hq)
    · rename_i hgoes
      refine attached_onTop (.node c ht hl hr) hg ?_
      intro q hq
      rw [Connective.level?_node] at hq
      cases hq
      exact Link.fits_of_not_goesInto hgoes

end Expr

namespace Row

/-- The tree that the operands and operators of a row make. -/
def tree (row : Row) : Expr := row.links.foldl (fun e link => e.attach link) row.first.expr

/-- Links that are put behind a tree one after the other. -/
theorem attached_all {e : Expr} {ts : List Token} (hy : e.Yields ts) (hg : e.Grouped)
    (links : List Link) :
    let whole := links.foldl (fun e link => e.attach link) e
    whole.Yields (ts ++ linkTokens links) ∧ whole.Grouped ∧
      ∀ q, whole.level? = some q → e.level? = some q ∨ ∃ link ∈ links, link.level = q := by
  induction links generalizing e ts with
  | nil =>
    refine ⟨?_, hg, fun q hq => Or.inl hq⟩
    simpa [linkTokens] using hy
  | cons link links ih =>
    have hattached := hy.attached hg link
    obtain ⟨hyields, hgrouped, hlevel⟩ := ih hattached.yields hattached.grouped
    refine ⟨?_, hgrouped, ?_⟩
    · simpa [linkTokens] using hyields
    · intro q hq
      rcases hlevel q hq with hfirst | ⟨later, hmem, hlater⟩
      · rcases hattached.level with hlink | hsame
        · rw [hlink] at hfirst
          exact Or.inr ⟨link, List.mem_cons_self, Option.some.inj hfirst⟩
        · exact Or.inl (hsame ▸ hfirst)
      · exact Or.inr ⟨later, List.mem_cons_of_mem _ hmem, hlater⟩

theorem tree_yields (row : Row) : row.tree.Yields row.tokens :=
  (attached_all row.first.yields row.first.grouped row.links).1

theorem tree_grouped (row : Row) : row.tree.Grouped :=
  (attached_all row.first.yields row.first.grouped row.links).2.1

theorem tree_level {row : Row} {q : Precedence} (hq : row.tree.level? = some q) :
    ∃ link ∈ row.links, link.level = q := by
  rcases (attached_all row.first.yields row.first.grouped row.links).2.2 q hq with hfirst | hlink
  · rw [row.first.level?_expr] at hfirst
    cases hfirst
  · exact hlink

end Row

/-! ## Reading a row -/

namespace Parser

/-- A tree is read at every level that is lower than its own, up to an operator that does not bind
tighter than the level. -/
theorem parseExpression_of_yields {e : Expr} {ts rest : List Token} (hy : e.Yields ts)
    (hg : e.Grouped) {p : Precedence} (hlevel : ∀ q, e.level? = some q → p < q)
    (hsign : (Precedence.of (headKind rest)).rank ≤ Precedence.power.rank)
    (hstop : ¬p < Precedence.of (headKind rest)) :
    parseExpression p (ts ++ rest) = .ok e rest := by
  refine (readsAs_of_yields hy hg).expression ?_ hlevel ⟨?_, ?_⟩ hstop
  · simp only [List.length_append]
    omega
  · exact Nat.not_lt.mpr (Nat.le_trans hsign (by decide))
  · intro q hq
    have hless : p.rank < q.rank := hlevel q hq
    have hle : (Precedence.of (headKind rest)).rank ≤ p.rank := Nat.not_lt.mp hstop
    have hright := q.rightOperand_rank
    exact Nat.not_lt.mpr (by omega)

/-- There is only one tree with operands that fit: both would be read from the same tokens. -/
theorem grouped_unique {e e' : Expr} {ts : List Token} (hy : e.Yields ts) (hg : e.Grouped)
    (hy' : e'.Yields ts) (hg' : e'.Grouped) : e' = e := by
  have hread : ∀ {e : Expr}, e.Yields ts → e.Grouped →
      parseExpression .lowest (ts ++ []) = .ok e [] := fun hy hg =>
    parseExpression_of_yields hy hg (fun _ hq => Expr.lowest_lt_level hq) (by decide) (by decide)
  have hsame := (hread hy' hg').symm.trans (hread hy hg)
  cases hsame
  rfl

/-- Behind the tighter part of a row stands a looser operator or the end. -/
theorem headKind_looser (row : Row) (p : Precedence) {finish : Token}
    (hf : finish.kind = .endOfText) :
    let rest := Row.linkTokens (row.looser p) ++ [finish]
    (Precedence.of (headKind rest)).rank ≤ Precedence.power.rank ∧
      ¬p < Precedence.of (headKind rest) := by
  intro rest
  cases hlooser : row.looser p with
  | nil =>
    have hhead : headKind rest = .endOfText := by
      simp only [rest, hlooser]
      exact hf
    rw [hhead]
    exact ⟨by decide, Nat.not_lt_zero _⟩
  | cons link links =>
    have hhead : Precedence.of (headKind rest) = link.level := by
      simp only [rest, hlooser]
      exact congrArg Precedence.of link.kind
    rw [hhead]
    refine ⟨link.connective.level_rank.2, ?_⟩
    have hfirst := List.head?_dropWhile_not (fun link : Link => p < link.level) row.links
    rw [show row.links.dropWhile _ = link :: links from hlooser] at hfirst
    simpa using hfirst

/-- A row is read as the only tree with operands that fit, up to its end. At any level, the longest
part is read whose operators bind tighter than the level. -/
theorem rows_group_uniquely (row : Row) (finish : Token) (hf : finish.kind = .endOfText) :
    (∃ e, e.Yields row.tokens ∧ e.Grouped ∧ (∀ e', e'.Yields row.tokens → e'.Grouped → e' = e) ∧
      parseExpression .lowest (row.tokens ++ [finish]) = .ok e [finish]) ∧
    ∀ p, ∃ e, e.Yields (row.tighter p).tokens ∧ e.Grouped ∧
      (∀ e', e'.Yields (row.tighter p).tokens → e'.Grouped → e' = e) ∧
      parseExpression p (row.tokens ++ [finish]) =
        .ok e (Row.linkTokens (row.looser p) ++ [finish]) := by
  have hunique (row : Row) (e' : Expr) (hy : e'.Yields row.tokens) (hg : e'.Grouped) :
      e' = row.tree := grouped_unique row.tree_yields row.tree_grouped hy hg
  refine ⟨⟨row.tree, row.tree_yields, row.tree_grouped, hunique row, ?_⟩, fun p =>
    ⟨(row.tighter p).tree, (row.tighter p).tree_yields, (row.tighter p).tree_grouped,
      hunique (row.tighter p), ?_⟩⟩
  · have hend : Precedence.of (headKind [finish]) = .lowest := congrArg Precedence.of hf
    refine parseExpression_of_yields row.tree_yields row.tree_grouped
      (fun _ hq => Expr.lowest_lt_level hq) ?_ ?_
    · rw [hend]
      decide
    · rw [hend]
      decide
  · obtain ⟨hsign, hstop⟩ := headKind_looser row p hf
    rw [row.tokens_eq p, List.append_assoc]
    refine parseExpression_of_yields (row.tighter p).tree_yields (row.tighter p).tree_grouped ?_
      hsign hstop
    intro q hq
    obtain ⟨link, hlink, rfl⟩ := Row.tree_level hq
    simpa using List.mem_takeWhile_imp hlink

/-- The tokens of `-a + b ** !c ** 2 ?: d` are read to the end, and up to `?:` at its level. -/
theorem mixed_row_groups_uniquely :
    let token (kind : TokenKind) (literal : String) (column : Nat) : Token :=
      ⟨kind, literal, ⟨1, column⟩⟩
    let name (literal : String) (column : Nat) : Operand :=
      .atom (token .name literal column) (.identifier literal ⟨1, column⟩) (.name rfl)
    let row : Row :=
      ⟨.signed .negate (token .minus "-" 1) rfl (name "a" 2),
        [⟨.binary .add, token .plus "+" 4, rfl, name "b" 6⟩,
          ⟨.binary .pow, token .starStar "**" 8, rfl,
            .signed .not (token .bang "!" 11) rfl (name "c" 12)⟩,
          ⟨.binary .pow, token .starStar "**" 14, rfl,
            .atom (token .int "2" 17) (.integer 2 ⟨1, 17⟩) (.integer rfl (by decide))⟩,
          ⟨.elvis, token .elvis "?:" 19, rfl, name "d" 22⟩]⟩
    let finish := token .endOfText "" 23
    finish.kind = .endOfText ∧
    (∃ e, e.Yields row.tokens ∧ e.Grouped ∧
      parseExpression .lowest (row.tokens ++ [finish]) = .ok e [finish]) ∧
    ∃ e, e.Grouped ∧ parseExpression .ternary (row.tokens ++ [finish]) =
      .ok e [token .elvis "?:" 19, token .name "d" 22, finish] := by
  intro token name row finish
  obtain ⟨⟨whole, hyields, hgrouped, -, hread⟩, hlevels⟩ := rows_group_uniquely row finish rfl
  obtain ⟨part, -, hpart, -, hreadPart⟩ := hlevels .ternary
  exact ⟨rfl, ⟨whole, hyields, hgrouped, hread⟩, part, hpart, hreadPart⟩

end Parser

end ScriptLang
