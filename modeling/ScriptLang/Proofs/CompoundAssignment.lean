-- What a compound assignment abbreviates. With a name as its target it is the assignment of the
-- operator's value, whatever the right side does. With an element as its target it is only so if
-- the right side leaves the element alone: the element is read behind the right side there, and
-- before it in the assignment that is written out.
import ScriptLang.Proofs.MoreFuel

namespace ScriptLang

theorem Value.isError_eq_false {v : Value} (h : v.isSignal = false) : v.isError = false := by
  cases v <;> simp_all [isSignal, isError]

namespace Eval

variable {host : Host} {m : Machine}

/-! ## Steps one after the other -/

theorem andThen_run (x : Eval Value) (f : Value → Eval Value) (m : Machine) :
    andThen x f m = match x m with
      | .ok v between => if v.isSignal then .ok v between else f v between
      | .error stop between => .error stop between := by
  unfold andThen
  rw [bind_run]
  cases x m with
  | error stop between => rfl
  | ok v between =>
    dsimp only
    split <;> rfl

theorem andThen_of_plain {x : Eval Value} {v : Value} {between : Machine}
    (h : x m = .ok v between) (hv : v.isSignal = false) (f : Value → Eval Value) :
    andThen x f m = f v between := by
  rw [andThen_run, h]
  simp [hv]

theorem andThen_of_signal {x : Eval Value} {v : Value} {between : Machine}
    (h : x m = .ok v between) (hv : v.isSignal = true) (f : Value → Eval Value) :
    andThen x f m = .ok v between := by
  rw [andThen_run, h]
  simp [hv]

/-- A signal goes through the second step as it went through the first. -/
theorem andThen_andThen (x : Eval Value) (f g : Value → Eval Value) :
    andThen (andThen x f) g = andThen x fun v => andThen (f v) g := by
  funext m
  cases hx : x m with
  | error stop between => rw [andThen_run, andThen_run, andThen_run, hx]
  | ok v between =>
    cases hv : v.isSignal with
    | true =>
      rw [andThen_of_signal (andThen_of_signal hx hv f) hv, andThen_of_signal hx hv]
    | false =>
      rw [andThen_of_plain hx hv, andThen_run, andThen_of_plain hx hv, andThen_run (f v)]

theorem andThen_congr {x : Eval Value} {f g : Value → Eval Value}
    (h : ∀ v between, x m = .ok v between → v.isSignal = false → f v between = g v between) :
    andThen x f m = andThen x g m := by
  rw [andThen_run, andThen_run]
  cases hx : x m with
  | error stop between => rfl
  | ok v between =>
    dsimp only
    split
    · rfl
    · rename_i hv
      exact h v between hx (by simpa using hv)

/-- An operator gives no signals but errors. -/
theorem operate_bind (op : BinaryOp) (left right : Value) (f : Value → Eval Value) :
    (do
      let result ← (operate op left right : Eval Value)
      if result.isError then return result else f result) = andThen (operate op left right) f := by
  funext m
  have hsettled := Operation.binary_isSettled m.store.heap op left right
  have hrun : (operate op left right : Eval Value) m =
      .ok (Operation.binary m.store.heap op left right) m := rfl
  rw [bind_run, andThen_run, hrun]
  generalize Operation.binary m.store.heap op left right = result at hsettled
  dsimp only
  cases result with
  | returning v => cases hsettled
  | breaking => cases hsettled
  | _ => rfl

theorem lookup_of_bound {name : String} {v : Value}
    (h : m.store.scopes.get? m.scope name = some v) : (lookup name : Eval Value) m = .ok v m := by
  have hrun : (lookup? name : Eval (Option Value)) m = .ok (some v) m := by
    rw [← h]
    rfl
  unfold lookup
  rw [bind_run, hrun]
  rfl

/-- Looking a name up gives a value and changes nothing. -/
theorem lookup_run (name : String) (m : Machine) :
    ∃ v, (lookup name : Eval Value) m = .ok v m := by
  cases hfound : m.store.scopes.get? m.scope name with
  | some v => exact ⟨v, lookup_of_bound hfound⟩
  | none =>
    have hrun : (lookup? name : Eval (Option Value)) m = .ok none m := by
      rw [← hfound]
      rfl
    unfold lookup
    rw [bind_run, hrun]
    dsimp only
    cases Builtin.ofName? name with
    | some b => exact ⟨.builtin b, rfl⟩
    | none => exact ⟨_, rfl⟩

theorem expr_identifier (fuel : Nat) (name : String) (p : Position) :
    (expr host (fuel + 1) (.identifier name p) : Eval Value) = lookup name := expr_succ ..

/-- Where reading the left operand changes nothing, an operator is taken behind the right one. -/
theorem andThen_binary {fuel : Nat} {op : BinaryOp} {left right : Expr} {current : Value}
    (hread : (expr host fuel left : Eval Value) m = .ok current m)
    (hplain : current.isSignal = false) (q : Position) (next : Value → Eval Value) :
    andThen (expr host (fuel + 1) (.binary op left right q)) next m =
      andThen (expr host fuel right) (fun v => andThen (operate op current v) next) m := by
  have hstep : (expr host (fuel + 1) (.binary op left right q) : Eval Value) =
      andThen (expr host fuel left) fun l => andThen (expr host fuel right) (operate op l) :=
    expr_succ ..
  rw [hstep, andThen_andThen, andThen_of_plain hread hplain, andThen_andThen]

/-! ## Written out -/

/-- From the state `m`, writing `target op= value` comes to what writing `target = target op value`
comes to: the same result in the same state. -/
structure Abbreviates (host : Host) (m : Machine) (op : BinaryOp) (target value : Expr) : Prop where
  expression : ∀ (p q : Position) r,
    ComesTo (fun fuel => expr host fuel (.assign target (some op) value p)) m r ↔
      ComesTo (fun fuel => expr host fuel (.assign target none (.binary op target value q) p)) m r
  statement : ∀ (p q : Position) r,
    ComesTo (fun fuel => statement (expr host fuel) (.assignment target (some op) value p)) m r ↔
      ComesTo (fun fuel => statement (expr host fuel)
        (.assignment target none (.binary op target value q) p)) m r

/-- Written out, an assignment nests one level deeper. -/
theorem abbreviates_of_assignment {op : BinaryOp} {target value : Expr}
    (h : ∀ fuel q, (assignment (expr host (fuel + 2)) target (some op) value : Eval Value) m =
      (assignment (expr host (fuel + 3)) target none (.binary op target value q) : Eval Value)
        m) :
    Abbreviates host m op target value where
  expression p q := by
    refine comesTo_congr (d := 3) (grows_expr host _) (grows_expr host _) fun fuel => ?_
    rw [expr_succ, expr_succ]
    exact h fuel q
  statement p q := by
    refine comesTo_congr (d := 2) (grows_statement host _) (grows_statement host _) fun fuel => ?_
    exact h fuel q

/-! ## Names -/

/-- Looking a name up in the scopes, as it stands among other evaluations. -/
theorem liftM_lookup?_run (name : String) (m : Machine) :
    (liftM (lookup? name) : Eval (Option Value)) m =
      .ok (m.store.scopes.get? m.scope name) m := rfl

theorem assignName_of_unbound {eval : EvalExpr Eval} {name : String}
    (h : m.store.scopes.get? m.scope name = none) (op : Option BinaryOp) (value : Expr) :
    (assignName eval name op value : Eval Value) m = .ok (.error (.unbound name)) m := by
  unfold assignName
  rw [bind_run, liftM_lookup?_run, h]
  rfl

theorem assignName_of_bound {eval : EvalExpr Eval} {name : String} {current : Value}
    (h : m.store.scopes.get? m.scope name = some current) (op : Option BinaryOp) (value : Expr) :
    (assignName eval name op value : Eval Value) m = andThen (eval value) (fun v => do
      let result ← combined op current v
      if result.isError then return result
      assign name result
      return result) m := by
  unfold assignName
  rw [bind_run, liftM_lookup?_run, h]
  rfl

theorem abbreviates_name (op : BinaryOp) (value : Expr) {name : String} (p : Position)
    (hplain : ∀ v, m.store.scopes.get? m.scope name = some v → v.isSignal = false) :
    Abbreviates host m op (.identifier name p) value := by
  refine abbreviates_of_assignment fun fuel q => ?_
  change (assignName _ name (some op) value : Eval Value) m =
    (assignName _ name none _ : Eval Value) m
  cases hfound : m.store.scopes.get? m.scope name with
  | none => rw [assignName_of_unbound hfound, assignName_of_unbound hfound]
  | some current =>
    have hread : (expr host (fuel + 2) (.identifier name p) : Eval Value) m = .ok current m := by
      rw [expr_identifier, lookup_of_bound hfound]
    rw [assignName_of_bound hfound, assignName_of_bound hfound,
      andThen_binary hread (hplain current hfound)]
    refine andThen_congr fun v between _ _ => ?_
    have hwritten := congrFun (operate_bind op current v fun result => do
      assign name result
      return result) between
    refine hwritten.trans (andThen_congr fun result later _ hresult => ?_)
    change _ = (if result.isError = true then _ else _ : Eval Value) later
    rw [Value.isError_eq_false hresult]
    rfl

/-! ## Elements -/

/-- An element that can be read, and that the evaluation of `value` leaves as it is. -/
structure Undisturbed (host : Host) (m : Machine) (container key : Value) (value : Expr) :
    Prop where
  readable : (m.store.heap.index container key).isSignal = false
  kept : ∀ v after, ComesTo (fun fuel => expr host fuel value) m (.ok v after) →
    v.isSignal = false →
    after.store.heap.index container key = m.store.heap.index container key

theorem expr_index (fuel : Nat) (container key : Expr) (p : Position) :
    (expr host (fuel + 1) (.index container key p) : Eval Value) =
      andThen (expr host fuel container) fun c =>
        andThen (expr host fuel key) fun k => readElement c k := expr_succ ..

theorem abbreviates_element (op : BinaryOp) (value : Expr) {container key : String}
    (p p' p'' : Position)
    (h : ∀ c k, lookup container m = .ok c m → lookup key m = .ok k m → c.isSignal = false →
      k.isSignal = false → Undisturbed host m c k value) :
    Abbreviates host m op (.index (.identifier container p) (.identifier key p') p'') value := by
  obtain ⟨c, hc⟩ := lookup_run container m
  obtain ⟨k, hk⟩ := lookup_run key m
  refine abbreviates_of_assignment fun fuel q => ?_
  change (assignElement _ _ _ (some op) value : Eval Value) m =
    (assignElement _ _ _ none _ : Eval Value) m
  unfold assignElement
  rw [expr_identifier, expr_identifier, expr_identifier, expr_identifier]
  cases hcplain : c.isSignal with
  | true => rw [andThen_of_signal hc hcplain, andThen_of_signal hc hcplain]
  | false =>
    rw [andThen_of_plain hc hcplain, andThen_of_plain hc hcplain]
    cases hkplain : k.isSignal with
    | true => rw [andThen_of_signal hk hkplain, andThen_of_signal hk hkplain]
    | false =>
      rw [andThen_of_plain hk hkplain, andThen_of_plain hk hkplain]
      obtain ⟨hreadable, hkept⟩ := h c k hc hk hcplain hkplain
      have hread : (expr host (fuel + 2)
          (.index (.identifier container p) (.identifier key p') p'') : Eval Value) m =
          .ok (m.store.heap.index c k) m := by
        rw [expr_index, expr_identifier, expr_identifier, andThen_of_plain hc hcplain,
          andThen_of_plain hk hkplain]
        rfl
      rw [andThen_binary hread hreadable]
      refine andThen_congr fun v between hv hplain => ?_
      have hlate : (liftM (readElement c k) : Eval Value) between =
          .ok (m.store.heap.index c k) between := by
        rw [← hkept v between ⟨ends_ok v between, _, hv⟩ hplain]
        rfl
      dsimp only
      rw [bind_run, hlate]
      dsimp only
      rw [Value.isError_eq_false hreadable]
      exact congrFun (operate_bind op _ v (writeElement c k)) between

/-- A compound assignment means what it abbreviates where its target is a name, whatever the right
side does. An element is read behind the right side, so there it does if the element can be read and
the right side leaves it as it is. -/
theorem compound_assignment_abbreviates (host : Host) (m : Machine) (op : BinaryOp)
    (value : Expr) (p p' p'' : Position) :
    (∀ name, (∀ v, m.store.scopes.get? m.scope name = some v → v.isSignal = false) →
      Abbreviates host m op (.identifier name p) value) ∧
    (∀ container key, (∀ c k, lookup container m = .ok c m → lookup key m = .ok k m →
        c.isSignal = false → k.isSignal = false → Undisturbed host m c k value) →
      Abbreviates host m op (.index (.identifier container p) (.identifier key p') p'') value) :=
  ⟨fun _ => abbreviates_name op value p, fun _ _ => abbreviates_element op value p p' p''⟩

/-- A state in which the name `a` is bound to the array `[1]` and the name `i` to `0`. -/
def withElement : Machine :=
  let m := Machine.start Host.plain .unlimited 0
  let scopes := (m.store.scopes.define m.scope "a" (.array ⟨0⟩)).define m.scope "i" (.integer 0)
  { m with store := { m.store with heap := ⟨#[#[.integer 1]], #[]⟩, scopes } }

/-- The right side of `i += (i = 7)` may write the name, and that of `a[i] += (i = 7)` too. -/
theorem right_side_may_write_name :
    let i : Expr := .identifier "i" .start
    let value : Expr := .assign i none (.integer 7 .start) .start
    (∀ v, withElement.store.scopes.get? withElement.scope "i" = some v → v.isSignal = false) ∧
      Undisturbed Host.plain withElement (.array ⟨0⟩) (.integer 0) value ∧
      Abbreviates Host.plain withElement .add i value ∧
      Abbreviates Host.plain withElement .add (.index (.identifier "a" .start) i .start) value := by
  intro i value
  have hi : withElement.store.scopes.get? withElement.scope "i" = some (.integer 0) := rfl
  have ha : withElement.store.scopes.get? withElement.scope "a" = some (.array ⟨0⟩) := rfl
  have hplain (v : Value)
      (h : withElement.store.scopes.get? withElement.scope "i" = some v) :
      v.isSignal = false := by
    cases hi.symm.trans h
    rfl
  have hundisturbed : Undisturbed Host.plain withElement (.array ⟨0⟩) (.integer 0) value := by
    refine ⟨rfl, fun v after h _ => ?_⟩
    obtain ⟨last, hseven, hheap⟩ : ∃ last,
        (expr Host.plain 5 value : Eval Value) withElement = .ok (.integer 7) last ∧
          last.store.heap = withElement.store.heap := ⟨_, rfl, rfl⟩
    cases h.unique (grows_expr Host.plain value) ⟨ends_ok _ last, 5, hseven⟩
    rw [hheap]
  have hboth := compound_assignment_abbreviates Host.plain withElement .add value .start .start
    .start
  refine ⟨hplain, hundisturbed, hboth.1 "i" hplain, hboth.2 "a" "i" ?_⟩
  intro c k hc hk _ _
  cases (lookup_of_bound ha).symm.trans hc
  cases (lookup_of_bound hi).symm.trans hk
  exact hundisturbed

/-- The right side of `a[i] += (a[i] = 5)` writes the element before it is read: the sum is `10`.
Written out, `a[i] = a[i] + (a[i] = 5)`, it is `6`. -/
theorem element_read_behind_right_side :
    let target : Expr := .index (.identifier "a" .start) (.identifier "i" .start) .start
    ¬Abbreviates Host.plain withElement .add target
      (.assign target none (.integer 5 .start) .start) := by
  intro target h
  let value : Expr := .assign target none (.integer 5 .start) .start
  let compound : Expr := .assign target (some .add) value .start
  let writtenOut : Expr := .assign target none (.binary .add target value .start) .start
  obtain ⟨between, hten⟩ : ∃ after,
      (expr Host.plain 5 compound : Eval Value) withElement = .ok (.integer 10) after := ⟨_, rfl⟩
  obtain ⟨after, hsix⟩ : ∃ after,
      (expr Host.plain 5 writtenOut : Eval Value) withElement = .ok (.integer 6) after := ⟨_, rfl⟩
  have hsame := (h.expression .start .start _).mp ⟨ends_ok _ between, 5, hten⟩
  have hunique := hsame.unique (grows_expr Host.plain writtenOut) ⟨ends_ok _ after, 5, hsix⟩
  injection hunique with hvalue
  injection hvalue with hnumber
  exact absurd hnumber (by decide)

end Eval

end ScriptLang
