-- The nodes of a tree, and the way that the checker goes over them. A node has parts, and the
-- checker comes to each part in a state of its own; what it finds on the way is what it finds in
-- the parts, one after the other.
import ScriptLang.Check

namespace ScriptLang

/-- A function with a name binds it where it is written. -/
def Checker.named (name : Option String) (position : Position) (c : Checker) : Checker :=
  match name with
  | some name => (c.bind name position).define name
  | none => c

theorem Expr.check_loop (initializer : Option Statement) (condition update : Option Expr)
    (body : Block) (position : Position) (c : Checker) :
    (Expr.loop initializer condition update body position).check c =
      c.inside fun c => body.check (checkExprs update.toList (checkExprs condition.toList
        (checkStatements initializer.toList c))) := by
  cases initializer <;> cases condition <;> cases update <;> rfl

/-! ## Nodes -/

/-- A part of a tree: an expression, a statement, or a list of parts that stand in a row. -/
inductive Node where
  | expr (e : Expr)
  | exprs (es : List Expr)
  | pairs (ps : List (Expr × Expr))
  /-- Parameters, with the place of their function. -/
  | parameters (position : Position) (ps : List Parameter)
  | statement (s : Statement)
  | statements (ss : List Statement)
  | branches (bs : List (String × Expr))

namespace Node

/-- Looks at a node. -/
def check : Node → Checker → Checker
  | expr e, c => e.check c
  | exprs es, c => checkExprs es c
  | pairs ps, c => checkPairs ps c
  | parameters position ps, c => checkParameters position ps c
  | statement s, c => s.check c
  | statements ss, c => checkStatements ss c
  | branches bs, c => checkBranches bs c

/-- The parts of a node in the order in which they are looked at, each with the state in which the
checker comes to it when it comes to the node in the state `c`. -/
def parts (c : Checker) : Node → List (Node × Checker)
  | expr (.unary _ operand _) => [(expr operand, c)]
  | expr (.binary _ left right _) => [(expr left, c), (expr right, left.check c)]
  | expr (.elvis left right _) => [(expr left, c), (expr right, left.check c)]
  | expr (.assign target _ value _) => [(expr target, c), (expr value, target.check c)]
  | expr (.call function arguments _) => [(expr function, c), (exprs arguments, function.check c)]
  | expr (.index container key _) => [(expr container, c), (expr key, container.check c)]
  | expr (.array elements _) => [(exprs elements, c)]
  | expr (.hash ps _) => [(pairs ps, c)]
  | expr (.conditional condition consequence alternative _) =>
    let tested := condition.check c
    [(expr condition, c), (statements consequence.statements, tested.enter),
      (statements ((alternative.map Block.statements).getD []), (consequence.check tested).enter)]
  | expr (.ternary condition consequence alternative _) =>
    [(expr condition, c), (expr consequence, condition.check c),
      (expr alternative, consequence.check (condition.check c))]
  | expr (.loop initializer condition update body _) =>
    let header := checkStatements initializer.toList c.enter
    let tested := checkExprs condition.toList header
    [(statements initializer.toList, c.enter), (exprs condition.toList, header),
      (exprs update.toList, tested),
      (statements body.statements, (checkExprs update.toList tested).enter)]
  | expr (.function literal position) =>
    let inner := (c.named literal.name position).enter
    [(parameters position literal.parameters, inner),
      (statements literal.body.statements, checkParameters position literal.parameters inner)]
  | expr (.methodCall receiver _ arguments _) =>
    [(expr receiver, c), (exprs arguments, receiver.check c)]
  | expr (.importFile path _) => [(expr path, c)]
  | exprs (e :: es) => [(expr e, c), (exprs es, e.check c)]
  | pairs ((key, value) :: ps) =>
    [(expr key, c), (expr value, key.check c), (pairs ps, value.check (key.check c))]
  | parameters position (.required name :: ps) =>
    [(parameters position ps, (c.bind name position).define name)]
  | parameters position (.defaulted name default :: ps) =>
    [(expr default, c),
      (parameters position ps, ((default.check c).bind name position).define name)]
  | statement (.var name value position) => [(expr value, (c.bind name position).declare name)]
  | statement (.assignment target _ value _) => [(expr target, c), (expr value, target.check c)]
  | statement (.returning value _) => [(exprs value.toList, c)]
  | statement (.delete target _) => [(expr target, c)]
  | statement (.enum _ bs _) => [(branches bs, c)]
  | statement (.expression e _) => [(expr e, c)]
  | statements (s :: ss) => [(statement s, c), (statements ss, s.check c)]
  | branches ((_, value) :: bs) => [(expr value, c), (branches bs, value.check c)]
  | _ => []

end Node

mutual

/-- The names that an expression reads, each with its place, in the order of the text. -/
def Expr.reads : Expr → List (String × Position)
  | .identifier name position => [(name, position)]
  | .step _ name position => [(name, position)]
  | .scopeAccess name _ position => [(name, position)]
  | .unary _ operand _ => operand.reads
  | .binary _ left right _ => left.reads ++ right.reads
  | .elvis left right _ => left.reads ++ right.reads
  | .assign target _ value _ => target.reads ++ value.reads
  | .call function arguments _ => function.reads ++ readsOfExprs arguments
  | .index container key _ => container.reads ++ key.reads
  | .array elements _ => readsOfExprs elements
  | .hash pairs _ => readsOfPairs pairs
  | .conditional condition consequence alternative _ =>
    condition.reads ++ (consequence.reads ++ match alternative with
      | some block => block.reads
      | none => [])
  | .ternary condition consequence alternative _ =>
    condition.reads ++ (consequence.reads ++ alternative.reads)
  | .loop initializer condition update body _ =>
    (match initializer with
      | some statement => statement.reads
      | none => []) ++
    ((match condition with
      | some expr => expr.reads
      | none => []) ++
    ((match update with
      | some expr => expr.reads
      | none => []) ++ body.reads))
  | .function (.mk _ parameters body) _ => readsOfParameters parameters ++ body.reads
  | .methodCall receiver _ arguments _ => receiver.reads ++ readsOfExprs arguments
  | .importFile path _ => path.reads
  | _ => []

def readsOfExprs : List Expr → List (String × Position)
  | [] => []
  | expr :: rest => expr.reads ++ readsOfExprs rest

def readsOfPairs : List (Expr × Expr) → List (String × Position)
  | [] => []
  | (key, value) :: rest => key.reads ++ (value.reads ++ readsOfPairs rest)

def readsOfParameters : List Parameter → List (String × Position)
  | [] => []
  | .required _ :: rest => readsOfParameters rest
  | .defaulted _ default :: rest => default.reads ++ readsOfParameters rest

def Block.reads : Block → List (String × Position)
  | .mk statements _ => readsOfStatements statements

def readsOfStatements : List Statement → List (String × Position)
  | [] => []
  | statement :: rest => statement.reads ++ readsOfStatements rest

def Statement.reads : Statement → List (String × Position)
  | .var _ value _ => value.reads
  | .assignment target _ value _ => target.reads ++ value.reads
  | .returning (some value) _ => value.reads
  | .delete target _ => target.reads
  | .enum _ branches _ => readsOfBranches branches
  | .expression expr _ => expr.reads
  | _ => []

def readsOfBranches : List (String × Expr) → List (String × Position)
  | [] => []
  | (_, value) :: rest => value.reads ++ readsOfBranches rest

end

namespace Node

def reads : Node → List (String × Position)
  | expr e => e.reads
  | exprs es => readsOfExprs es
  | pairs ps => readsOfPairs ps
  | parameters _ ps => readsOfParameters ps
  | statement s => s.reads
  | statements ss => readsOfStatements ss
  | branches bs => readsOfBranches bs

/-- The state of the checker makes no difference to what the parts are. -/
theorem parts_fst (a : Node) (c d : Checker) :
    (a.parts c).map Prod.fst = (a.parts d).map Prod.fst := by
  cases a with
  | expr e => cases e <;> rfl
  | exprs es => cases es <;> rfl
  | pairs ps =>
    cases ps with
    | nil => rfl
    | cons p ps => rfl
  | parameters position ps =>
    cases ps with
    | nil => rfl
    | cons p ps => cases p <;> rfl
  | statement s => cases s <;> rfl
  | statements ss => cases ss <;> rfl
  | branches bs =>
    cases bs with
    | nil => rfl
    | cons b bs => rfl

/-- The parts of a node, without a checker. -/
def children (a : Node) : List Node := (a.parts .start).map Prod.fst

theorem mem_children {a : Node} {c : Checker} {p : Node × Checker} (hp : p ∈ a.parts c) :
    p.1 ∈ a.children := by
  unfold children
  rw [parts_fst a .start c]
  exact List.mem_map_of_mem hp

theorem reads_loop (initializer : Option Statement) (condition update : Option Expr)
    (body : Block) (position : Position) :
    (Expr.loop initializer condition update body position).reads =
      readsOfStatements initializer.toList ++ (readsOfExprs condition.toList ++
        (readsOfExprs update.toList ++ body.reads)) := by
  cases initializer <;> cases condition <;> cases update <;>
    simp only [Expr.reads, readsOfExprs, readsOfStatements, Option.toList, List.append_nil]

theorem sizeOf_toList {α : Type} [SizeOf α] (o : Option α) : sizeOf o.toList ≤ sizeOf o + 1 := by
  cases o with
  | none => exact Nat.le_succ 1
  | some a => exact Nat.le_refl (1 + sizeOf a + 1)

theorem sizeOf_statements (b : Block) : sizeOf b.statements < sizeOf b := by
  cases b with
  | mk ss position =>
    simp [Block.statements]
    omega

theorem sizeOf_child (a : Node) : ∀ b ∈ a.children, sizeOf b < sizeOf a := by
  unfold children
  cases a with
  | expr e =>
    cases e with
    | integer | float | string | boolean | null | identifier | step | scopeAccess => simp [parts]
    | unary | array | hash | importFile => simp [parts]; omega
    | binary | elvis | assign | call | index | methodCall | ternary => simp [parts]; omega
    | conditional condition consequence alternative _ =>
      have hyes := sizeOf_statements consequence
      cases alternative with
      | none => simp [parts]; omega
      | some block =>
        have hno := sizeOf_statements block
        simp [parts]; omega
    | loop initializer condition update body _ =>
      have hfirst := sizeOf_toList initializer
      have htest := sizeOf_toList condition
      have hlast := sizeOf_toList update
      have hbody := sizeOf_statements body
      simp [parts]; omega
    | function literal _ =>
      cases literal with
      | mk name ps body =>
        have hbody := sizeOf_statements body
        simp [parts, FunctionLiteral.parameters, FunctionLiteral.body]; omega
  | exprs es | statements es =>
    cases es with
    | nil => simp [parts]
    | cons e es => simp [parts]; omega
  | pairs ps | branches ps =>
    cases ps with
    | nil => simp [parts]
    | cons p ps => cases p; simp [parts]; omega
  | parameters position ps =>
    cases ps with
    | nil => simp [parts]
    | cons p ps =>
      cases p with
      | required name =>
        simp only [parts, List.map_cons, List.map_nil, List.mem_singleton, forall_eq,
          parameters.sizeOf_spec, List.cons.sizeOf_spec, Parameter.required.sizeOf_spec]
        omega
      | defaulted name default => simp [parts]; omega
  | statement s =>
    cases s with
    | returning value position =>
      have hvalue := sizeOf_toList value
      cases position
      simp [parts]; omega
    | breaking => simp [parts]
    | _ => simp [parts]; omega

/-- What holds of a node if it holds of its parts holds of every node. -/
theorem induct {P : Node → Prop} (h : ∀ a, (∀ b ∈ a.children, P b) → P a) (a : Node) : P a := by
  induction hn : sizeOf a using Nat.strongRecOn generalizing a with
  | ind n ih =>
    refine h a fun b hb => ?_
    exact ih _ (hn ▸ sizeOf_child a b hb) b rfl

end Node

/-! ## What the checker finds -/

/-- Going from the state `c` to the state `d`, the checker comes to `reads`, so that every name
that it finds to be read too early is among them. -/
structure Checker.Finds (c d : Checker) (reads : List (String × Position)) : Prop where
  kept : ∀ x ∈ c.found, x ∈ d.found
  new : ∀ x ∈ d.found,
    x ∈ c.found ∨ x.kind = .shadowsBuiltin ∨ (x.name, x.position) ∈ reads

namespace Checker

variable {c d e : Checker}

@[simp] theorem declare_found (name : String) (c : Checker) :
    (c.declare name).found = c.found := by
  unfold declare
  split <;> rfl

namespace Finds

theorem of_eq (h : d.found = c.found) : Finds c d [] :=
  ⟨fun _ hx => h ▸ hx, fun _ hx => .inl (h ▸ hx)⟩

theorem trans {before after : List (String × Position)} (h : Finds c d before)
    (h' : Finds d e after) : Finds c e (before ++ after) := by
  refine ⟨fun x hx => h'.kept x (h.kept x hx), fun x hx => ?_⟩
  rcases h'.new x hx with hd | hk | hr
  · rcases h.new x hd with hc | hk | hr
    · exact .inl hc
    · exact .inr (.inl hk)
    · exact .inr (.inr (List.mem_append_left _ hr))
  · exact .inr (.inl hk)
  · exact .inr (.inr (List.mem_append_right _ hr))

theorem read (name : String) (position : Position) (c : Checker) :
    Finds c (c.read name position) [(name, position)] := by
  unfold Checker.read
  split
  · refine ⟨fun x hx => List.mem_append_left _ hx, fun x hx => ?_⟩
    rcases List.mem_append.mp hx with hc | hx
    · exact .inl hc
    · rw [List.mem_singleton.mp hx]
      exact .inr (.inr (List.mem_singleton_self _))
  · exact ⟨fun x hx => hx, fun x hx => .inl hx⟩

theorem bind (name : String) (position : Position) (c : Checker) :
    Finds c (c.bind name position) [] := by
  unfold Checker.bind
  split
  · refine ⟨fun x hx => List.mem_append_left _ hx, fun x hx => ?_⟩
    rcases List.mem_append.mp hx with hc | hx
    · exact .inl hc
    · rw [List.mem_singleton.mp hx]
      exact .inr (.inl rfl)
  · exact .of_eq rfl

theorem named (name : Option String) (position : Position) (c : Checker) :
    Finds c (c.named name position) [] := by
  cases name with
  | none => exact .of_eq rfl
  | some name => exact .trans (.bind name position c) (.of_eq rfl)

end Finds

end Checker

namespace Node

open Checker

/-- The checker goes from `c` over parts to `d`, and binds names between them at most. -/
def Steps : Checker → List (Node × Checker) → Checker → Prop
  | c, [], d => Finds c d []
  | c, p :: ps, d => Finds c p.2 [] ∧ Steps (p.1.check p.2) ps d

/-- The checker reads a node at once, or goes over its parts. -/
theorem parts_cases (a : Node) (c : Checker) :
    (a.parts c = [] ∧ Finds c (a.check c) a.reads) ∨
    (a.reads = ((a.parts c).map fun p => p.1.reads).flatten ∧ Steps c (a.parts c) (a.check c)) := by
  have here {c d : Checker} (h : d.found = c.found) : Finds c d [] := .of_eq h
  cases a with
  | expr e =>
    cases e with
    | identifier name position => exact .inl ⟨rfl, .read name position c⟩
    | step op name position => exact .inl ⟨rfl, .read name position c⟩
    | scopeAccess name branch position => exact .inl ⟨rfl, .read name position c⟩
    | integer | float | string | boolean | null => exact .inl ⟨rfl, here rfl⟩
    | unary | array | hash | importFile =>
      exact .inr ⟨by simp [parts, reads, Expr.reads], here rfl, here rfl⟩
    | binary | elvis | assign | call | index | methodCall =>
      exact .inr ⟨by simp [parts, reads, Expr.reads], here rfl, here rfl, here rfl⟩
    | ternary =>
      exact .inr ⟨by simp [parts, reads, Expr.reads], here rfl, here rfl, here rfl, here rfl⟩
    | conditional condition consequence alternative _ =>
      right
      cases consequence
      cases alternative with
      | none =>
        refine ⟨?_, here rfl, here rfl, here rfl, here rfl⟩
        simp [parts, reads, Expr.reads, Block.reads, Block.statements, readsOfStatements]
      | some block =>
        cases block
        refine ⟨?_, here rfl, here rfl, here rfl, here rfl⟩
        simp [parts, reads, Expr.reads, Block.reads, Block.statements]
    | loop initializer condition update body _ =>
      right
      cases body
      refine ⟨?_, here rfl, here rfl, here rfl, here rfl, here ?_⟩
      · simp [parts, reads, reads_loop, Block.reads, Block.statements]
      · rw [check, Expr.check_loop]
        rfl
    | function literal position =>
      right
      obtain ⟨name, ps, ⟨body, place⟩⟩ := literal
      refine ⟨?_, .trans (.named name position c) (here rfl), here rfl, here rfl⟩
      simp [parts, reads, Expr.reads, Block.reads, Block.statements, FunctionLiteral.parameters,
        FunctionLiteral.body]
  | exprs es =>
    cases es with
    | nil => exact .inl ⟨rfl, here rfl⟩
    | cons e es =>
      exact .inr ⟨by simp [parts, reads, readsOfExprs], here rfl, here rfl, here rfl⟩
  | pairs ps =>
    cases ps with
    | nil => exact .inl ⟨rfl, here rfl⟩
    | cons p ps =>
      exact .inr ⟨by simp [parts, reads, readsOfPairs], here rfl, here rfl, here rfl, here rfl⟩
  | parameters position ps =>
    cases ps with
    | nil => exact .inl ⟨rfl, here rfl⟩
    | cons p ps =>
      cases p with
      | required name =>
        refine .inr ⟨by simp [parts, reads, readsOfParameters], ?_, here rfl⟩
        exact .trans (.bind name position c) (here rfl)
      | defaulted name default =>
        refine .inr ⟨by simp [parts, reads, readsOfParameters], here rfl, ?_, here rfl⟩
        exact .trans (.bind name position _) (here rfl)
  | statement s =>
    cases s with
    | breaking => exact .inl ⟨rfl, here rfl⟩
    | var name value position =>
      refine .inr ⟨by simp [parts, reads, Statement.reads], ?_, here rfl⟩
      exact .trans (.bind name position c) (here (declare_found name _))
    | enum name bs position =>
      refine .inr ⟨by simp [parts, reads, Statement.reads], here rfl, ?_⟩
      exact .trans (.bind name position _) (here rfl)
    | returning value _ =>
      right
      cases value <;> exact ⟨by simp [parts, reads, Statement.reads, readsOfExprs],
        here rfl, here rfl⟩
    | delete | expression =>
      exact .inr ⟨by simp [parts, reads, Statement.reads], here rfl, here rfl⟩
    | assignment =>
      exact .inr ⟨by simp [parts, reads, Statement.reads], here rfl, here rfl, here rfl⟩
  | statements ss =>
    cases ss with
    | nil => exact .inl ⟨rfl, here rfl⟩
    | cons s ss =>
      exact .inr ⟨by simp [parts, reads, readsOfStatements], here rfl, here rfl, here rfl⟩
  | branches bs =>
    cases bs with
    | nil => exact .inl ⟨rfl, here rfl⟩
    | cons b bs =>
      exact .inr ⟨by simp [parts, reads, readsOfBranches], here rfl, here rfl, here rfl⟩

theorem Steps.finds {ps : List (Node × Checker)} {c d : Checker} (h : Steps c ps d)
    (hp : ∀ p ∈ ps, Finds p.2 (p.1.check p.2) p.1.reads) :
    Finds c d (ps.map fun p => p.1.reads).flatten := by
  induction ps generalizing c with
  | nil => exact h
  | cons p ps ih =>
    have hrest := ih h.2 fun q hq => hp q (List.mem_cons_of_mem p hq)
    exact .trans (.trans h.1 (hp p List.mem_cons_self)) hrest

/-- What the checker finds in a node, the names that the node reads tell. -/
theorem finds_check (a : Node) (c : Checker) : Finds c (a.check c) a.reads := by
  induction a using Node.induct generalizing c with
  | h a ih =>
    rcases a.parts_cases c with ⟨-, h⟩ | ⟨hr, h⟩
    · exact h
    · rw [hr]
      exact h.finds fun p hp => ih p.1 (mem_children hp) p.2

theorem Steps.split {ps : List (Node × Checker)} {c d : Checker} (h : Steps c ps d)
    {p : Node × Checker} (hp : p ∈ ps) :
    ∃ before after, (ps.map fun p => p.1.reads).flatten = before ++ (p.1.reads ++ after) ∧
      Finds c p.2 before ∧ Finds (p.1.check p.2) d after := by
  induction ps generalizing c with
  | nil => nomatch hp
  | cons q ps ih =>
    rcases List.mem_cons.mp hp with rfl | hp
    · refine ⟨[], (ps.map fun p => p.1.reads).flatten, by simp, h.1, ?_⟩
      exact h.2.finds fun q _ => finds_check q.1 q.2
    · obtain ⟨before, after, hr, hb, ha⟩ := ih h.2 hp
      refine ⟨q.1.reads ++ before, after, by simp [hr], ?_, ha⟩
      exact .trans (.trans h.1 (finds_check q.1 q.2)) hb

/-- The reads of a part stand between what the checker comes to before the part and what it comes
to behind it. -/
theorem split {a : Node} {c : Checker} {p : Node × Checker} (hp : p ∈ a.parts c) :
    ∃ before after, a.reads = before ++ (p.1.reads ++ after) ∧
      Finds c p.2 before ∧ Finds (p.1.check p.2) (a.check c) after := by
  rcases a.parts_cases c with ⟨hn, -⟩ | ⟨hr, h⟩
  · rw [hn] at hp
    nomatch hp
  · rw [hr]
    exact h.split hp

/-! ## Nodes inside a node -/

/-- A node holds itself, and the parts of what it holds. -/
inductive Holds (a : Node) : Node → Prop
  | self : a.Holds a
  | part {b d : Node} (h : a.Holds b) (hd : d ∈ b.children) : a.Holds d

theorem Holds.trans {a b d : Node} (h : a.Holds b) (h' : b.Holds d) : a.Holds d := by
  induction h' with
  | self => exact h
  | part _ hd ih => exact .part ih hd

theorem Holds.cases {a d : Node} (h : a.Holds d) : d = a ∨ ∃ b ∈ a.children, b.Holds d := by
  induction h with
  | self => exact .inl rfl
  | part _ hd ih =>
    rcases ih with rfl | ⟨b, hb, hh⟩
    · exact .inr ⟨_, hd, .self⟩
    · exact .inr ⟨b, hb, .part hh hd⟩

/-- Something is true of every node inside a node. -/
def Every (P : Node → Prop) (a : Node) : Prop := ∀ b, a.Holds b → P b

theorem Every.here {P : Node → Prop} {a : Node} (h : a.Every P) : P a := h a .self

theorem Every.child {P : Node → Prop} {a b : Node} (h : a.Every P) (hb : b ∈ a.children) :
    b.Every P :=
  fun d hd => h d (.trans (.part .self hb) hd)

theorem Every.intro {P : Node → Prop} {a : Node} (h : P a) (hc : ∀ b ∈ a.children, b.Every P) :
    a.Every P := by
  intro d hd
  rcases hd.cases with rfl | ⟨b, hb, hh⟩
  · exact h
  · exact hc b hb d hh

theorem every_iff {P : Node → Prop} {a : Node} :
    a.Every P ↔ P a ∧ ∀ b ∈ a.children, b.Every P :=
  ⟨fun h => ⟨h.here, fun _ hb => h.child hb⟩, fun h => .intro h.1 h.2⟩

/-- The names that a node itself binds where it is evaluated. -/
def declares : Node → List String
  | expr (.function literal _) => literal.name.toList
  | parameters _ (p :: _) => [p.name]
  | statement (.var name _ _) => [name]
  | statement (.enum name _ _) => [name]
  | _ => []

end Node

end ScriptLang
