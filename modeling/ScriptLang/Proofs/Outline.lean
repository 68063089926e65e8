-- Of a program only its outline matters to the look for doubtful names: the names that are read and
-- bound, the initializers of variables, and the scopes. Every look leaves open the scopes that were
-- open before it, and changes the names of the innermost one only.
import ScriptLang.Proofs.Node

namespace ScriptLang

/-! ## Outlines -/

/-- What of a program matters to its names. -/
inductive Outline where
  | read (name : String) (position : Position)
  /-- An enum, a named function or a parameter. -/
  | bind (name : String) (position : Position)
  | var (name : String) (position : Position) (initializer : List Outline)
  /-- A block, a loop, or a function behind its name. -/
  | scope (inside : List Outline)

/-- The name of a function is bound where the function is written. -/
def outlineOfName? (name : Option String) (position : Position) : List Outline :=
  match name with
  | some name => [.bind name position]
  | none => []

mutual

/-- The outline of an expression, in the order in which it is written. -/
def Expr.outline : Expr → List Outline
  | .integer _ _ | .float _ _ | .string _ _ | .boolean _ _ | .null _ => []
  | .identifier name position => [.read name position]
  | .step _ name position => [.read name position]
  | .scopeAccess name _ position => [.read name position]
  | .unary _ operand _ => operand.outline
  | .binary _ left right _ => left.outline ++ right.outline
  | .elvis left right _ => left.outline ++ right.outline
  | .assign target _ value _ => target.outline ++ value.outline
  | .call function arguments _ => function.outline ++ outlineOfExprs arguments
  | .index container key _ => container.outline ++ key.outline
  | .array elements _ => outlineOfExprs elements
  | .hash pairs _ => outlineOfPairs pairs
  | .conditional condition consequence alternative _ =>
    condition.outline ++ consequence.outline ++ outlineOfBlock? alternative
  | .ternary condition consequence alternative _ =>
    condition.outline ++ consequence.outline ++ alternative.outline
  | .loop initializer condition update body _ =>
    [.scope (outlineOfStatement? initializer ++ outlineOfExpr? condition ++
      outlineOfExpr? update ++ body.outline)]
  | .function (.mk name parameters (.mk statements _)) position =>
    outlineOfName? name position ++
      [.scope (outlineOfParameters position parameters ++ outlineOfStatements statements)]
  | .methodCall receiver _ arguments _ => receiver.outline ++ outlineOfExprs arguments
  | .importFile path _ => path.outline

def outlineOfExpr? : Option Expr → List Outline
  | some expr => expr.outline
  | none => []

def outlineOfBlock? : Option Block → List Outline
  | some block => block.outline
  | none => []

def outlineOfStatement? : Option Statement → List Outline
  | some statement => statement.outline
  | none => []

def outlineOfExprs : List Expr → List Outline
  | [] => []
  | expr :: rest => expr.outline ++ outlineOfExprs rest

def outlineOfPairs : List (Expr × Expr) → List Outline
  | [] => []
  | (key, value) :: rest => key.outline ++ value.outline ++ outlineOfPairs rest

/-- A parameter is bound behind its default, at the place of its function. -/
def outlineOfParameters (position : Position) : List Parameter → List Outline
  | [] => []
  | .required name :: rest => .bind name position :: outlineOfParameters position rest
  | .defaulted name default :: rest =>
    default.outline ++ .bind name position :: outlineOfParameters position rest

def Block.outline : Block → List Outline
  | .mk statements _ => [.scope (outlineOfStatements statements)]

def outlineOfStatements : List Statement → List Outline
  | [] => []
  | statement :: rest => statement.outline ++ outlineOfStatements rest

def Statement.outline : Statement → List Outline
  | .var name value position => [.var name position value.outline]
  | .assignment target _ value _ => target.outline ++ value.outline
  | .returning (some value) _ => value.outline
  | .returning none _ => []
  | .breaking _ => []
  | .delete target _ => target.outline
  | .enum name branches position => outlineOfBranches branches ++ [.bind name position]
  | .expression expr _ => expr.outline

def outlineOfBranches : List (String × Expr) → List Outline
  | [] => []
  | (_, value) :: rest => value.outline ++ outlineOfBranches rest

end

/-! ## The look at an outline -/

mutual

def Outline.check : Outline → Checker → Checker
  | .read name position, c => c.read name position
  | .bind name position, c => (c.bind name position).define name
  | .var name position initializer, c =>
    (checkOutlines initializer ((c.bind name position).declare name)).define name
  | .scope inside, c => c.inside (checkOutlines inside)

def checkOutlines : List Outline → Checker → Checker
  | [], c => c
  | o :: rest, c => checkOutlines rest (o.check c)

end

@[simp] theorem checkOutlines_nil (c : Checker) : checkOutlines [] c = c := rfl

@[simp] theorem checkOutlines_cons (o : Outline) (os : List Outline) (c : Checker) :
    checkOutlines (o :: os) c = checkOutlines os (o.check c) := rfl

@[simp] theorem checkOutlines_append (os os' : List Outline) (c : Checker) :
    checkOutlines (os ++ os') c = checkOutlines os' (checkOutlines os c) := by
  induction os generalizing c with
  | nil => rfl
  | cons o os ih => exact ih (o.check c)

theorem Checker.inside_congr {look look' : Checker → Checker} (h : ∀ c, look c = look' c)
    (c : Checker) : c.inside look = c.inside look' := by
  rw [funext h]

mutual

/-- Looking at a tree is looking at its outline. -/
theorem Expr.check_eq (e : Expr) (c : Checker) : e.check c = checkOutlines e.outline c := by
  cases e with
  | integer | float | string | boolean | null => rfl
  | identifier | step | scopeAccess => rfl
  | unary op operand position => exact operand.check_eq c
  | binary op left right position | elvis left right position =>
    simp only [Expr.check, Expr.outline, checkOutlines_append, left.check_eq, right.check_eq]
  | assign target op value position =>
    simp only [Expr.check, Expr.outline, checkOutlines_append, target.check_eq, value.check_eq]
  | call function arguments position =>
    simp only [Expr.check, Expr.outline, checkOutlines_append, function.check_eq,
      checkExprs_eq arguments]
  | index container key position =>
    simp only [Expr.check, Expr.outline, checkOutlines_append, container.check_eq, key.check_eq]
  | array elements position => exact checkExprs_eq elements c
  | hash pairs position => exact checkPairs_eq pairs c
  | conditional condition consequence alternative position =>
    cases alternative with
    | none =>
      simp only [Expr.check, Expr.outline, outlineOfBlock?, checkOutlines_append,
        checkOutlines_nil, condition.check_eq, consequence.check_eq]
    | some block =>
      simp only [Expr.check, Expr.outline, outlineOfBlock?, checkOutlines_append,
        condition.check_eq, consequence.check_eq, block.check_eq]
  | ternary condition consequence alternative position =>
    simp only [Expr.check, Expr.outline, checkOutlines_append, condition.check_eq,
      consequence.check_eq, alternative.check_eq]
  | loop initializer condition update body position =>
    rw [Expr.check_loop, Expr.outline]
    refine Checker.inside_congr (fun c => ?_) c
    rw [checkStatement?_eq initializer, checkExpr?_eq condition, checkExpr?_eq update,
      body.check_eq]
    simp only [checkOutlines_append]
  | function literal position =>
    match literal with
    | .mk name parameters (.mk statements place) =>
      have hinside : ∀ c, checkStatements statements (checkParameters position parameters c) =
          checkOutlines (outlineOfParameters position parameters ++
            outlineOfStatements statements) c := by
        intro c
        rw [checkOutlines_append, checkParameters_eq position parameters,
          checkStatements_eq statements]
      cases name with
      | none => exact Checker.inside_congr hinside c
      | some name => exact Checker.inside_congr hinside _
  | methodCall receiver method arguments position =>
    simp only [Expr.check, Expr.outline, checkOutlines_append, receiver.check_eq,
      checkExprs_eq arguments]
  | importFile path position => exact path.check_eq c

theorem checkExpr?_eq (e : Option Expr) (c : Checker) :
    checkExprs e.toList c = checkOutlines (outlineOfExpr? e) c := by
  match e with
  | none => rfl
  | some expr => exact expr.check_eq c

theorem checkStatement?_eq (s : Option Statement) (c : Checker) :
    checkStatements s.toList c = checkOutlines (outlineOfStatement? s) c := by
  match s with
  | none => rfl
  | some statement => exact statement.check_eq c

theorem checkExprs_eq (es : List Expr) (c : Checker) :
    checkExprs es c = checkOutlines (outlineOfExprs es) c := by
  cases es with
  | nil => rfl
  | cons e es =>
    simp only [checkExprs, outlineOfExprs, checkOutlines_append, e.check_eq, checkExprs_eq es]

theorem checkPairs_eq (ps : List (Expr × Expr)) (c : Checker) :
    checkPairs ps c = checkOutlines (outlineOfPairs ps) c := by
  match ps with
  | [] => rfl
  | (key, value) :: ps =>
    simp only [checkPairs, outlineOfPairs, checkOutlines_append, key.check_eq, value.check_eq,
      checkPairs_eq ps]

theorem checkParameters_eq (position : Position) (ps : List Parameter) (c : Checker) :
    checkParameters position ps c = checkOutlines (outlineOfParameters position ps) c := by
  match ps with
  | [] => rfl
  | .required name :: ps =>
    simp only [checkParameters, outlineOfParameters, checkOutlines_cons, Outline.check,
      checkParameters_eq position ps]
  | .defaulted name default :: ps =>
    simp only [checkParameters, outlineOfParameters, checkOutlines_append, checkOutlines_cons,
      Outline.check, default.check_eq, checkParameters_eq position ps]

theorem Block.check_eq (b : Block) (c : Checker) : b.check c = checkOutlines b.outline c := by
  match b with
  | .mk statements position =>
    simp only [Block.check, Block.outline, checkOutlines_cons, checkOutlines_nil, Outline.check,
      checkStatements_eq statements]

theorem checkStatements_eq (ss : List Statement) (c : Checker) :
    checkStatements ss c = checkOutlines (outlineOfStatements ss) c := by
  match ss with
  | [] => rfl
  | statement :: ss =>
    simp only [checkStatements, outlineOfStatements, checkOutlines_append, statement.check_eq,
      checkStatements_eq ss]

theorem Statement.check_eq (s : Statement) (c : Checker) :
    s.check c = checkOutlines s.outline c := by
  match s with
  | .var name value position =>
    simp only [Statement.check, Statement.outline, checkOutlines_cons, checkOutlines_nil,
      Outline.check, value.check_eq]
  | .assignment target op value position =>
    simp only [Statement.check, Statement.outline, checkOutlines_append, target.check_eq,
      value.check_eq]
  | .returning (some value) position => exact value.check_eq c
  | .returning none position => rfl
  | .breaking position => rfl
  | .delete target position => exact target.check_eq c
  | .enum name branches position =>
    simp only [Statement.check, Statement.outline, checkOutlines_append, checkOutlines_cons,
      checkOutlines_nil, Outline.check, checkBranches_eq branches]
  | .expression expr position => exact expr.check_eq c

theorem checkBranches_eq (bs : List (String × Expr)) (c : Checker) :
    checkBranches bs c = checkOutlines (outlineOfBranches bs) c := by
  match bs with
  | [] => rfl
  | (name, value) :: bs =>
    simp only [checkBranches, outlineOfBranches, checkOutlines_append, value.check_eq,
      checkBranches_eq bs]

end

namespace Node

def outline : Node → List Outline
  | expr e => e.outline
  | exprs es => outlineOfExprs es
  | pairs ps => outlineOfPairs ps
  | parameters position ps => outlineOfParameters position ps
  | statement s => s.outline
  | statements ss => outlineOfStatements ss
  | branches bs => outlineOfBranches bs

theorem check_eq (a : Node) (c : Checker) : a.check c = checkOutlines a.outline c := by
  cases a with
  | expr e => exact e.check_eq c
  | exprs es => exact checkExprs_eq es c
  | pairs ps => exact checkPairs_eq ps c
  | parameters position ps => exact checkParameters_eq position ps c
  | statement s => exact s.check_eq c
  | statements ss => exact checkStatements_eq ss c
  | branches bs => exact checkBranches_eq bs c

end Node

/-! ## The scopes that are open -/

namespace Marks

/-- From `a` to `b`, a name that has its value keeps it, and no name is added without a value. -/
structure Le (a b : Marks) : Prop where
  kept : ∀ name, a.lookup name = some true → b.lookup name = some true
  unset : ∀ name, b.lookup name = some false → a.lookup name = some false

variable {a b c : Marks} {name other : String}

theorem Le.refl (a : Marks) : a.Le a := ⟨fun _ h => h, fun _ h => h⟩

theorem Le.of_eq (h : a = b) : a.Le b := h ▸ .refl a

theorem Le.trans (h : a.Le b) (h' : b.Le c) : a.Le c :=
  ⟨fun name hn => h'.kept name (h.kept name hn), fun name hn => h.unset name (h'.unset name hn)⟩

theorem lookup_cons_self (name : String) (value : Bool) (a : Marks) :
    ((name, value) :: a).lookup name = some value := by
  simp

theorem lookup_cons_ne (h : other ≠ name) (value : Bool) (a : Marks) :
    ((name, value) :: a).lookup other = a.lookup other := by
  have hb : (other == name) = false := beq_false_of_ne h
  simp [List.lookup_cons, hb]

theorem Le.define (name : String) (a : Marks) : a.Le ((name, true) :: a) := by
  constructor
  · intro other h
    by_cases hn : other = name
    · rw [hn, lookup_cons_self]
    · rw [lookup_cons_ne hn]
      exact h
  · intro other h
    by_cases hn : other = name
    · rw [hn, lookup_cons_self] at h
      cases h
    · rw [lookup_cons_ne hn] at h
      exact h

end Marks

namespace Checker

@[simp] theorem read_marks (name : String) (position : Position) (c : Checker) :
    (c.read name position).marks = c.marks := by
  unfold read
  split <;> rfl

@[simp] theorem read_outer (name : String) (position : Position) (c : Checker) :
    (c.read name position).outer = c.outer := by
  unfold read
  split <;> rfl

@[simp] theorem bind_marks (name : String) (position : Position) (c : Checker) :
    (c.bind name position).marks = c.marks := by
  unfold bind
  split <;> rfl

@[simp] theorem bind_outer (name : String) (position : Position) (c : Checker) :
    (c.bind name position).outer = c.outer := by
  unfold bind
  split <;> rfl

@[simp] theorem declare_outer (name : String) (c : Checker) :
    (c.declare name).outer = c.outer := by
  unfold declare
  split <;> rfl

@[simp] theorem define_marks (name : String) (c : Checker) :
    (c.define name).marks = (name, true) :: c.marks := rfl

/-- A name that is there keeps its mark. -/
theorem declare_true {name other : String} {c : Checker}
    (h : c.marks.lookup other = some true) :
    (c.declare name).marks.lookup other = some true := by
  unfold declare
  split
  · exact h
  · rename_i hnone
    have hne : other ≠ name := by
      rintro rfl
      rw [hnone] at h
      cases h
    rw [Marks.lookup_cons_ne hne]
    exact h

theorem declare_ne {name other : String} {c : Checker} (h : other ≠ name) :
    (c.declare name).marks.lookup other = c.marks.lookup other := by
  unfold declare
  split
  · rfl
  · exact Marks.lookup_cons_ne h false c.marks

theorem le_named (name : Option String) (position : Position) (c : Checker) :
    Marks.Le c.marks (c.named name position).marks := by
  cases name with
  | none => exact .refl _
  | some name =>
    rw [named, define_marks, bind_marks]
    exact .define name c.marks

/-- A name that gets its value in the end was added with one. -/
theorem le_of_declare {name : String} {c : Checker} {b : Marks}
    (h : Marks.Le (c.declare name).marks b) : Marks.Le c.marks ((name, true) :: b) := by
  constructor
  · intro other hc
    exact (Marks.Le.define name b).kept other (h.kept other (declare_true hc))
  · intro other hb
    by_cases hn : other = name
    · rw [hn, Marks.lookup_cons_self] at hb
      cases hb
    · rw [Marks.lookup_cons_ne hn] at hb
      rw [← declare_ne hn]
      exact h.unset other hb

/-- From `c` to `d` the same scopes are open. Only the marks of the innermost one grow. -/
structure Follows (c d : Checker) : Prop where
  marks : Marks.Le c.marks d.marks
  outer : d.outer = c.outer

variable {look : Checker → Checker} {c : Checker}

/-- What is looked at in a scope of its own leaves alone the scope that is innermost again. -/
theorem inside_marks (h : (look c.enter).outer = c.enter.outer) :
    (c.inside look).marks = c.marks := by
  simp only [inside, leave, h]
  rfl

theorem inside_outer (h : (look c.enter).outer = c.enter.outer) :
    (c.inside look).outer = c.outer := by
  simp only [inside, leave, h]
  rfl

end Checker

mutual

/-- Every scope that a look opens it closes. -/
theorem Outline.follows (o : Outline) (c : Checker) : c.Follows (o.check c) := by
  match o with
  | .read name position =>
    exact ⟨.of_eq (c.read_marks name position).symm, c.read_outer name position⟩
  | .bind name position =>
    exact ⟨c.le_named (some name) position, c.bind_outer name position⟩
  | .var name position initializer =>
    have hinit := checkOutlines_follows initializer ((c.bind name position).declare name)
    constructor
    · have hle := Checker.le_of_declare hinit.marks
      rwa [Checker.bind_marks] at hle
    · refine hinit.outer.trans ?_
      rw [Checker.declare_outer, Checker.bind_outer]
  | .scope inside =>
    have hinside := checkOutlines_follows inside c.enter
    exact ⟨.of_eq (Checker.inside_marks hinside.outer).symm, Checker.inside_outer hinside.outer⟩

theorem checkOutlines_follows (os : List Outline) (c : Checker) :
    c.Follows (checkOutlines os c) := by
  match os with
  | [] => exact ⟨.refl _, rfl⟩
  | o :: rest =>
    have hfirst := o.follows c
    have hrest := checkOutlines_follows rest (o.check c)
    exact ⟨hfirst.marks.trans hrest.marks, hrest.outer.trans hfirst.outer⟩

end

theorem Node.follows (a : Node) (c : Checker) : c.Follows (a.check c) := by
  rw [a.check_eq]
  exact checkOutlines_follows a.outline c

@[simp] theorem Block.check_marks (b : Block) (c : Checker) : (b.check c).marks = c.marks := by
  cases b with
  | mk statements position =>
    exact Checker.inside_marks ((Node.statements statements).follows c.enter).outer

theorem Expr.check_function_marks (literal : FunctionLiteral) (position : Position) (c : Checker) :
    ((Expr.function literal position).check c).marks = (c.named literal.name position).marks := by
  obtain ⟨name, parameters, ⟨statements, place⟩⟩ := literal
  have hparameters := (Node.parameters position parameters).follows (c.named name position).enter
  have hstatements := (Node.statements statements).follows
    (checkParameters position parameters (c.named name position).enter)
  exact Checker.inside_marks (hstatements.outer.trans hparameters.outer)

end ScriptLang
