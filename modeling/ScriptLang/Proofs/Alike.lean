-- Trees that are alike: the same forms with the same names, values and operators, at places that
-- may differ. Alike trees have the same text, and they are equal once the places are forgotten.
import Mathlib.Logic.Basic
import ScriptLang.Proofs.Node
import ScriptLang.Proofs.Unplaced
import ScriptLang.Value.Render

namespace ScriptLang

theorem toList_inj {α : Type} {o o' : Option α} (h : o.toList = o'.toList) : o = o' := by
  simpa using congrArg List.head? h

/-- Nodes that differ only in their places, each place related by `P` to the place in the other. -/
inductive Alike (P : Position → Position → Prop) : Node → Node → Prop
  | integer (value : Int64) {p q : Position} (hp : P p q) :
      Alike P (.expr (.integer value p)) (.expr (.integer value q))
  | float (value : Float) {p q : Position} (hp : P p q) :
      Alike P (.expr (.float value p)) (.expr (.float value q))
  | string (value : String) {p q : Position} (hp : P p q) :
      Alike P (.expr (.string value p)) (.expr (.string value q))
  | boolean (value : Bool) {p q : Position} (hp : P p q) :
      Alike P (.expr (.boolean value p)) (.expr (.boolean value q))
  | null {p q : Position} (hp : P p q) : Alike P (.expr (.null p)) (.expr (.null q))
  | identifier (name : String) {p q : Position} (hp : P p q) :
      Alike P (.expr (.identifier name p)) (.expr (.identifier name q))
  | unary (op : UnaryOp) {e f : Expr} {p q : Position} (he : Alike P (.expr e) (.expr f))
      (hp : P p q) : Alike P (.expr (.unary op e p)) (.expr (.unary op f q))
  | binary (op : BinaryOp) {l r l' r' : Expr} {p q : Position} (hl : Alike P (.expr l) (.expr l'))
      (hr : Alike P (.expr r) (.expr r')) (hp : P p q) :
      Alike P (.expr (.binary op l r p)) (.expr (.binary op l' r' q))
  | step (op : StepOp) (name : String) {p q : Position} (hp : P p q) :
      Alike P (.expr (.step op name p)) (.expr (.step op name q))
  | assign {t t' : Expr} (op : Option BinaryOp) {v v' : Expr} {p q : Position}
      (ht : Alike P (.expr t) (.expr t')) (hv : Alike P (.expr v) (.expr v')) (hp : P p q) :
      Alike P (.expr (.assign t op v p)) (.expr (.assign t' op v' q))
  | call {f f' : Expr} {args args' : List Expr} {p q : Position}
      (hf : Alike P (.expr f) (.expr f')) (ha : Alike P (.exprs args) (.exprs args'))
      (hp : P p q) : Alike P (.expr (.call f args p)) (.expr (.call f' args' q))
  | index {c k c' k' : Expr} {p q : Position} (hc : Alike P (.expr c) (.expr c'))
      (hk : Alike P (.expr k) (.expr k')) (hp : P p q) :
      Alike P (.expr (.index c k p)) (.expr (.index c' k' q))
  | array {es es' : List Expr} {p q : Position} (he : Alike P (.exprs es) (.exprs es'))
      (hp : P p q) : Alike P (.expr (.array es p)) (.expr (.array es' q))
  | hash {ps ps' : List (Expr × Expr)} {p q : Position} (hs : Alike P (.pairs ps) (.pairs ps'))
      (hp : P p q) : Alike P (.expr (.hash ps p)) (.expr (.hash ps' q))
  | oneSided {c c' : Expr} {ss ss' : List Statement} {b b' p q : Position}
      (hc : Alike P (.expr c) (.expr c')) (hs : Alike P (.statements ss) (.statements ss'))
      (hb : P b b') (hp : P p q) :
      Alike P (.expr (.conditional c (.mk ss b) none p))
        (.expr (.conditional c' (.mk ss' b') none q))
  | twoSided {c c' : Expr} {ss ts ss' ts' : List Statement} {b d b' d' p q : Position}
      (hc : Alike P (.expr c) (.expr c')) (hs : Alike P (.statements ss) (.statements ss'))
      (hb : P b b') (ht : Alike P (.statements ts) (.statements ts')) (hd : P d d') (hp : P p q) :
      Alike P (.expr (.conditional c (.mk ss b) (some (.mk ts d)) p))
        (.expr (.conditional c' (.mk ss' b') (some (.mk ts' d')) q))
  | ternary {c a b c' a' b' : Expr} {p q : Position} (hc : Alike P (.expr c) (.expr c'))
      (ha : Alike P (.expr a) (.expr a')) (hb : Alike P (.expr b) (.expr b')) (hp : P p q) :
      Alike P (.expr (.ternary c a b p)) (.expr (.ternary c' a' b' q))
  | elvis {l r l' r' : Expr} {p q : Position} (hl : Alike P (.expr l) (.expr l'))
      (hr : Alike P (.expr r) (.expr r')) (hp : P p q) :
      Alike P (.expr (.elvis l r p)) (.expr (.elvis l' r' q))
  | loop {i i' : Option Statement} {c u c' u' : Option Expr} {ss ss' : List Statement}
      {b b' p q : Position} (hi : Alike P (.statements i.toList) (.statements i'.toList))
      (hc : Alike P (.exprs c.toList) (.exprs c'.toList))
      (hu : Alike P (.exprs u.toList) (.exprs u'.toList))
      (hs : Alike P (.statements ss) (.statements ss')) (hb : P b b') (hp : P p q) :
      Alike P (.expr (.loop i c u (.mk ss b) p)) (.expr (.loop i' c' u' (.mk ss' b') q))
  | function (name : Option String) {ps ps' : List Parameter} {ss ss' : List Statement}
      {b b' p q : Position} (hs : Alike P (.parameters p ps) (.parameters q ps'))
      (hb : Alike P (.statements ss) (.statements ss')) (hd : P b b') (hp : P p q) :
      Alike P (.expr (.function (.mk name ps (.mk ss b)) p))
        (.expr (.function (.mk name ps' (.mk ss' b')) q))
  | methodCall {r r' : Expr} (method : String) {args args' : List Expr} {p q : Position}
      (hr : Alike P (.expr r) (.expr r')) (ha : Alike P (.exprs args) (.exprs args'))
      (hp : P p q) :
      Alike P (.expr (.methodCall r method args p)) (.expr (.methodCall r' method args' q))
  | scopeAccess (name branch : String) {p q : Position} (hp : P p q) :
      Alike P (.expr (.scopeAccess name branch p)) (.expr (.scopeAccess name branch q))
  | importFile {e f : Expr} {p q : Position} (he : Alike P (.expr e) (.expr f)) (hp : P p q) :
      Alike P (.expr (.importFile e p)) (.expr (.importFile f q))
  | noExprs : Alike P (.exprs []) (.exprs [])
  | exprs {e e' : Expr} {es es' : List Expr} (he : Alike P (.expr e) (.expr e'))
      (hs : Alike P (.exprs es) (.exprs es')) : Alike P (.exprs (e :: es)) (.exprs (e' :: es'))
  | noPairs : Alike P (.pairs []) (.pairs [])
  | pairs {k v k' v' : Expr} {ps ps' : List (Expr × Expr)} (hk : Alike P (.expr k) (.expr k'))
      (hv : Alike P (.expr v) (.expr v')) (hs : Alike P (.pairs ps) (.pairs ps')) :
      Alike P (.pairs ((k, v) :: ps)) (.pairs ((k', v') :: ps'))
  | noParameters {p q : Position} (hp : P p q) :
      Alike P (.parameters p []) (.parameters q [])
  | required (name : String) {ps ps' : List Parameter} {p q : Position}
      (hs : Alike P (.parameters p ps) (.parameters q ps')) :
      Alike P (.parameters p (.required name :: ps)) (.parameters q (.required name :: ps'))
  | defaulted (name : String) {e e' : Expr} {ps ps' : List Parameter} {p q : Position}
      (he : Alike P (.expr e) (.expr e'))
      (hs : Alike P (.parameters p ps) (.parameters q ps')) :
      Alike P (.parameters p (.defaulted name e :: ps)) (.parameters q (.defaulted name e' :: ps'))
  | var (name : String) {v v' : Expr} {p q : Position} (hv : Alike P (.expr v) (.expr v'))
      (hp : P p q) : Alike P (.statement (.var name v p)) (.statement (.var name v' q))
  | assignment {t t' : Expr} (op : Option BinaryOp) {v v' : Expr} {p q : Position}
      (ht : Alike P (.expr t) (.expr t')) (hv : Alike P (.expr v) (.expr v')) (hp : P p q) :
      Alike P (.statement (.assignment t op v p)) (.statement (.assignment t' op v' q))
  | returning {o o' : Option Expr} {p q : Position}
      (ho : Alike P (.exprs o.toList) (.exprs o'.toList)) (hp : P p q) :
      Alike P (.statement (.returning o p)) (.statement (.returning o' q))
  | breaking {p q : Position} (hp : P p q) :
      Alike P (.statement (.breaking p)) (.statement (.breaking q))
  | delete {e f : Expr} {p q : Position} (he : Alike P (.expr e) (.expr f)) (hp : P p q) :
      Alike P (.statement (.delete e p)) (.statement (.delete f q))
  | enum (name : String) {bs bs' : List (String × Expr)} {p q : Position}
      (hs : Alike P (.branches bs) (.branches bs')) (hp : P p q) :
      Alike P (.statement (.enum name bs p)) (.statement (.enum name bs' q))
  | expression {e f : Expr} {p q : Position} (he : Alike P (.expr e) (.expr f)) (hp : P p q) :
      Alike P (.statement (.expression e p)) (.statement (.expression f q))
  | noStatements : Alike P (.statements []) (.statements [])
  | statements {s s' : Statement} {ss ss' : List Statement}
      (h : Alike P (.statement s) (.statement s'))
      (hs : Alike P (.statements ss) (.statements ss')) :
      Alike P (.statements (s :: ss)) (.statements (s' :: ss'))
  | noBranches : Alike P (.branches []) (.branches [])
  | branches (name : String) {v v' : Expr} {bs bs' : List (String × Expr)}
      (hv : Alike P (.expr v) (.expr v')) (hs : Alike P (.branches bs) (.branches bs')) :
      Alike P (.branches ((name, v) :: bs)) (.branches ((name, v') :: bs'))

namespace Alike

variable {P : Position → Position → Prop} {a b : Node}

/-- A tree is like itself. -/
theorem refl (hP : ∀ p, P p p) (a : Node) : Alike P a a := by
  induction a using Node.induct with
  | h a ih =>
    unfold Node.children at ih
    cases a with
    | expr e =>
      cases e with
      | conditional c consequence alternative p =>
        cases consequence
        cases alternative with
        | none =>
          constructor <;> first | exact hP _ | exact ih _ (by simp [Node.parts, Block.statements])
        | some block =>
          cases block
          constructor <;> first | exact hP _ | exact ih _ (by simp [Node.parts, Block.statements])
      | loop i c u body p =>
        cases body
        constructor <;> first | exact hP _ | exact ih _ (by simp [Node.parts, Block.statements])
      | function literal p =>
        obtain ⟨name, ps, ss, d⟩ := literal
        exact .function name (ih (.parameters p ps) (.head _))
          (ih (.statements ss) (.tail _ (.head _))) (hP d) (hP p)
      | _ => constructor <;> first | exact hP _ | exact ih _ (by simp [Node.parts])
    | parameters p ps =>
      cases ps with
      | nil => exact .noParameters (hP p)
      | cons parameter ps =>
        cases parameter <;> constructor <;> exact ih _ (by simp [Node.parts])
    | statement s =>
      cases s <;> constructor <;> first | exact hP _ | exact ih _ (by simp [Node.parts])
    | exprs es | pairs es | statements es | branches es =>
      cases es <;> constructor <;> exact ih _ (by simp [Node.parts])

/-- Trees that are alike at equal places are equal. -/
theorem eq (h : Alike Eq a b) : a = b := by
  induction h with
  | loop _ _ _ _ hb hp hi hc hu hs =>
    have hi := toList_inj (Node.statements.inj hi)
    have hc := toList_inj (Node.exprs.inj hc)
    have hu := toList_inj (Node.exprs.inj hu)
    simp_all
  | returning _ hp ho =>
    have ho := toList_inj (Node.exprs.inj ho)
    simp_all
  | _ => simp_all

end Alike

/-! ## Without places -/

/-- A node with all places forgotten. -/
def Node.unplaced : Node → Node
  | expr e => .expr e.unplaced
  | exprs es => .exprs (unplacedExprs es)
  | pairs ps => .pairs (unplacedPairs ps)
  | parameters _ ps => .parameters .nowhere (unplacedParameters ps)
  | statement s => .statement s.unplaced
  | statements ss => .statements (unplacedStatements ss)
  | branches bs => .branches (unplacedBranches bs)

theorem toList_unplacedExpr? (o : Option Expr) :
    (unplacedExpr? o).toList = unplacedExprs o.toList := by
  cases o <;> rfl

theorem toList_unplacedStatement? (o : Option Statement) :
    (unplacedStatement? o).toList = unplacedStatements o.toList := by
  cases o <;> rfl

namespace Alike

variable {P : Position → Position → Prop} {a b : Node}

/-- Alike trees are equal once their places are forgotten. -/
theorem unplaced_eq (h : Alike P a b) : a.unplaced = b.unplaced := by
  induction h with
  | loop _ _ _ _ hb hp hi hc hu hs =>
    simp only [Node.unplaced, Node.statements.injEq, Node.exprs.injEq,
      ← toList_unplacedExpr?, ← toList_unplacedStatement?] at hi hc hu hs
    have hi := toList_inj hi
    have hc := toList_inj hc
    have hu := toList_inj hu
    simp [Node.unplaced, Expr.unplaced, Block.unplaced, *]
  | returning _ hp ho =>
    simp only [Node.unplaced, Node.exprs.injEq, ← toList_unplacedExpr?] at ho
    have ho := toList_inj ho
    simp [Node.unplaced, Statement.unplaced, *]
  | _ =>
    simp_all [Node.unplaced, Expr.unplaced, Statement.unplaced, FunctionLiteral.unplaced,
      Block.unplaced, unplacedExprs, unplacedPairs, unplacedParameters, Parameter.unplaced,
      unplacedStatements, unplacedBranches, unplacedBlock?]

theorem unplacedStatements_eq {ss ts : List Statement}
    (h : Alike P (.statements ss) (.statements ts)) :
    unplacedStatements ss = unplacedStatements ts :=
  Node.statements.inj h.unplaced_eq

theorem append_statements {p q p' q' : Program} (hp : Alike P (.statements p) (.statements p'))
    (hq : Alike P (.statements q) (.statements q')) :
    Alike P (.statements (p ++ q)) (.statements (p' ++ q')) := by
  induction p generalizing p' with
  | nil =>
    cases hp
    exact hq
  | cons s p ih =>
    cases hp with
    | statements hs hp => exact .statements hs (ih hp)

end Alike

/-! ## Texts -/

/-- Nodes that are written in the same way. -/
def Node.SameText : Node → Node → Prop
  | expr e, expr e' => e.text = e'.text
  | exprs es, exprs es' => exprTexts es = exprTexts es'
  | pairs ps, pairs ps' => pairTexts ps = pairTexts ps'
  | parameters _ ps, parameters _ ps' => parameterTexts ps = parameterTexts ps'
  | statement s, statement s' => s.text = s'.text
  | statements ss, statements ss' => ss.map Statement.text = ss'.map Statement.text
  | branches bs, branches bs' => branchesText bs = branchesText bs'
  | _, _ => False

theorem statementsText_eq_foldr (gap : String) (ss : List Statement) :
    statementsText gap ss =
      (ss.map Statement.text).foldr (fun text rest => text ++ gap ++ rest) "" := by
  induction ss with
  | nil => rfl
  | cons s ss ih => exact congrArg (s.text ++ gap ++ ·) ih

theorem Block.text_congr {ss ss' : List Statement} (b b' : Position)
    (h : ss.map Statement.text = ss'.map Statement.text) :
    (Block.mk ss b).text = (Block.mk ss' b').text := by
  change openBrace ++ " " ++ statementsText " " ss ++ closeBrace =
    openBrace ++ " " ++ statementsText " " ss' ++ closeBrace
  rw [statementsText_eq_foldr, statementsText_eq_foldr, h]

/-- The text of a clause of a loop, which may be missing. -/
def clauseText (o : Option Expr) : String := (exprTexts o.toList).headD ""

theorem Expr.text_loop (i : Option Statement) (c u : Option Expr) (body : Block) (p : Position) :
    (Expr.loop i c u body p).text =
      "for (" ++ withoutSemicolons ((i.toList.map Statement.text).headD "") ++ "; " ++
        clauseText c ++ "; " ++ clauseText u ++ ") " ++ body.text := by
  cases i <;> cases c <;> cases u <;> rfl

namespace Alike

variable {P : Position → Position → Prop} {a b : Node}

/-- Places do not show in a text. -/
theorem sameText (h : Alike P a b) : a.SameText b := by
  induction h with
  | integer | float | string | boolean | null | identifier | step | scopeAccess => rfl
  | noExprs | noPairs | noParameters | noStatements | noBranches | breaking => rfl
  | unary op _ _ he => exact congrArg (fun e => "(" ++ op.text ++ e ++ ")") he
  | binary op _ _ _ hl hr =>
    exact congrArg₂ (fun l r => "(" ++ l ++ " " ++ op.text ++ " " ++ r ++ ")") hl hr
  | assign op _ _ _ ht hv =>
    exact congrArg₂ (fun t v => "(" ++ t ++ " " ++ assignSign op ++ " " ++ v ++ ")") ht hv
  | assignment op _ _ _ ht hv =>
    exact congrArg₂ (fun t v => "(" ++ t ++ " " ++ assignSign op ++ " " ++ v ++ ");") ht hv
  | call _ _ _ hf ha =>
    exact congrArg₂ (fun f args => f ++ "(" ++ commaSeparated args ++ ")") hf ha
  | index _ _ _ hc hk => exact congrArg₂ (fun c k => "(" ++ c ++ "[" ++ k ++ "])") hc hk
  | array _ _ he => exact congrArg (fun es => "[" ++ commaSeparated es ++ "]") he
  | hash _ _ hs => exact congrArg (fun ps => openBrace ++ commaSeparated ps ++ closeBrace) hs
  | oneSided _ _ _ _ hc hs =>
    exact congrArg₂ (fun c b => "if " ++ c ++ " " ++ b ++ "") hc (Block.text_congr _ _ hs)
  | @twoSided c c' ss ts ss' ts' b d b' d' _ _ _ _ _ _ _ _ hc hs ht =>
    have hb := Block.text_congr b b' hs
    have hd := Block.text_congr d d' ht
    exact congrArg₂ (· ++ ·) (congrArg₂ (fun c b => "if " ++ c ++ " " ++ b) hc hb)
      (congrArg (" else " ++ ·) hd)
  | ternary _ _ _ _ hc ha hb =>
    exact congrArg₂ (· ++ " : " ++ · ++ ")")
      (congrArg₂ (fun c a => "(" ++ c ++ " ? " ++ a) hc ha) hb
  | elvis _ _ _ hl hr => exact congrArg₂ (fun l r => "(" ++ l ++ " ?: " ++ r ++ ")") hl hr
  | @loop _ _ _ _ _ _ _ _ b b' _ _ _ _ _ _ _ _ hi hc hu hs =>
    simp only [Node.SameText] at hi hc hu ⊢
    rw [Expr.text_loop, Expr.text_loop, hi, Block.text_congr b b' hs]
    simp only [clauseText, hc, hu]
  | function name _ _ _ _ hs hb =>
    cases name with
    | none =>
      exact congrArg₂ (fun ps b => "function" ++ "" ++ "(" ++ commaSeparated ps ++ ") " ++ b) hs
        (Block.text_congr _ _ hb)
    | some name =>
      exact congrArg₂ (fun ps b => "function" ++ (" " ++ name) ++ "(" ++ commaSeparated ps ++ ") "
        ++ b) hs (Block.text_congr _ _ hb)
  | methodCall method _ _ _ hr ha =>
    exact congrArg₂ (fun r args => r ++ "." ++ method ++ "(" ++ commaSeparated args ++ ")") hr ha
  | importFile _ _ he => exact congrArg ("import " ++ ·) he
  | exprs _ _ he hs => exact congrArg₂ List.cons he hs
  | pairs _ _ _ hk hv hs =>
    exact congrArg₂ List.cons (congrArg₂ (fun k v => k ++ ": " ++ v) hk hv) hs
  | required name _ hs => exact congrArg (name :: ·) hs
  | defaulted name _ _ he hs =>
    exact congrArg₂ (fun e ps => (name ++ " = " ++ e) :: ps) he hs
  | var name _ _ hv => exact congrArg (fun v => "var " ++ name ++ " = " ++ v ++ ";") hv
  | @returning o o' _ _ _ _ ho =>
    cases o <;> cases o'
    · rfl
    · cases ho
    · cases ho
    · exact congrArg (fun e => "return " ++ e ++ ";") (List.cons.inj ho).1
  | delete _ _ he => exact congrArg (fun e => "delete " ++ e ++ ";") he
  | enum name _ _ hs =>
    exact congrArg (fun bs => "enum " ++ name ++ " " ++ openBrace ++ " " ++ bs ++ closeBrace) hs
  | expression _ _ he => exact he
  | statements _ _ h hs => exact congrArg₂ List.cons h hs
  | branches name _ _ hv hs =>
    exact congrArg₂ (fun v bs => "case " ++ name ++ ": " ++ v ++ "; " ++ bs) hv hs

end Alike

/-! ## Functions -/

/-- Functions whose literals are alike. -/
def FunctionLiteral.Alike (P : Position → Position → Prop) (l l' : FunctionLiteral) : Prop :=
  ∃ p q, ScriptLang.Alike P (.expr (.function l p)) (.expr (.function l' q))

namespace Alike

variable {P : Position → Position → Prop} {p q : Position} {ps ps' : List Parameter}

theorem length_parameters (h : Alike P (.parameters p ps) (.parameters q ps')) :
    ps.length = ps'.length := by
  induction ps generalizing ps' with
  | nil =>
    cases h
    rfl
  | cons parameter ps ih =>
    cases h with
    | required _ hs | defaulted _ _ hs => exact congrArg (· + 1) (ih hs)

theorem required_parameters (h : Alike P (.parameters p ps) (.parameters q ps')) :
    (ps.filter Parameter.isRequired).length = (ps'.filter Parameter.isRequired).length := by
  induction ps generalizing ps' with
  | nil =>
    cases h
    rfl
  | cons parameter ps ih =>
    cases h with
    | required _ hs => exact congrArg (· + 1) (ih hs)
    | defaulted _ _ hs =>
      have hrest := ih hs
      exact hrest

end Alike

namespace FunctionLiteral.Alike

variable {P : Position → Position → Prop} {l l' : FunctionLiteral}

theorem refl (hP : ∀ p, P p p) (l : FunctionLiteral) : l.Alike P l :=
  ⟨.nowhere, .nowhere, .refl hP _⟩

theorem name_eq (h : l.Alike P l') : l.name = l'.name := by
  obtain ⟨p, q, h⟩ := h
  cases h
  rfl

theorem required_eq (h : l.Alike P l') : l.required = l'.required := by
  obtain ⟨p, q, h⟩ := h
  cases h with
  | function name hs => exact hs.required_parameters

theorem length_eq (h : l.Alike P l') : l.parameters.length = l'.parameters.length := by
  obtain ⟨p, q, h⟩ := h
  cases h with
  | function name hs => exact hs.length_parameters

theorem accepts_eq (h : l.Alike P l') (given : Nat) : l.accepts given = l'.accepts given := by
  unfold accepts
  rw [h.required_eq, h.length_eq]

theorem heading_eq (h : l.Alike P l') : l.heading = l'.heading := by
  obtain ⟨p, q, h⟩ := h
  cases h with
  | function name hs =>
    have htexts : parameterTexts _ = parameterTexts _ := hs.sameText
    unfold heading
    simp only [FunctionLiteral.name, parameters, htexts]

end FunctionLiteral.Alike

end ScriptLang
