-- Strict equality. It tells integers from floats at the top and through returns, but what is
-- inside collections is compared as `==` compares it: there an integer may stand for a float.
import ScriptLang.Proofs.Equality

namespace ScriptLang

/-! ## Positions -/

/-- A turn on the way to a position in a value: into a collection, or to what a return carries. -/
inductive Turn where
  | into (step : Step)
  | carried

/-- A position is inside a collection. -/
def Enters (path : List Turn) : Prop := ∃ step, Turn.into step ∈ path

namespace Heap

/-- What a turn leads to. -/
def turn? (h : Heap) : Value → Turn → Option Value
  | v, .into step => h.part? v step
  | .returning v, .carried => some v
  | _, .carried => none

/-- The value at a position. -/
def follow? (h : Heap) (v : Value) : List Turn → Option Value
  | [] => some v
  | turn :: path => (h.turn? v turn).bind fun w => h.follow? w path

end Heap

namespace Value

variable {x y : Value}

/-- An integer and a float of the same value. -/
def Mixed : Value → Value → Prop
  | integer n, float x => (Integer.toFloat n == x) = true
  | float x, integer n => (Integer.toFloat n == x) = true
  | _, _ => False

/-- Two numbers, both floats or mixed. -/
def Numbers (x y : Value) : Prop := x.kind = .float ∧ y.kind = .float ∨ Mixed x y

theorem SameNumber.numbers (hs : SameNumber x y) : Numbers x y := by
  unfold SameNumber at hs
  split at hs
  · exact Or.inl ⟨rfl, rfl⟩
  · exact Or.inr hs
  · exact Or.inr hs
  · exact hs.elim

theorem Mixed.symm (hm : Mixed x y) : Mixed y x := by
  unfold Mixed at hm
  split at hm
  · exact hm
  · exact hm
  · exact hm.elim

theorem Numbers.symm (hn : Numbers x y) : Numbers y x := by
  rcases hn with ⟨hx, hy⟩ | hm
  · exact Or.inl ⟨hy, hx⟩
  · exact Or.inr hm.symm

theorem Numbers.kind_eq_or_mixed (hn : Numbers x y) : x.kind = y.kind ∨ Mixed x y := by
  rcases hn with ⟨hx, hy⟩ | hm
  · exact Or.inl (hx.trans hy.symm)
  · exact Or.inr hm

/-- Numbers have nothing inside. -/
theorem Numbers.turn? (hn : Numbers x y) (h : Heap) (turn : Turn) : h.turn? x turn = none := by
  cases x with
  | integer n | float z => cases turn <;> rfl
  | _ => rcases hn with ⟨hx, -⟩ | hm <;> contradiction

end Value

namespace Heap

variable {h : Heap} {a b x y v w : Value} {R S : Value → Value → Prop} {path : List Turn}

/-! ## What `==` lets through -/

/-- Two values are one and the same, or `==` finds them to be the same some number of levels deep,
whichever is compared with the other. -/
def LooselySame (h : Heap) (x y : Value) : Prop :=
  x = y ∨ ∃ n, h.equalsWithin n x y = true ∨ h.equalsWithin n y x = true

theorem LooselySame.symm (hs : h.LooselySame x y) : h.LooselySame y x := by
  rcases hs with rfl | ⟨n, hxy | hyx⟩
  · exact Or.inl rfl
  · exact Or.inr ⟨n, Or.inr hxy⟩
  · exact Or.inr ⟨n, Or.inl hyx⟩

theorem matches_of_equalsWithin (hb : h.HashesBuilt) {n : Nat} (he : h.equalsWithin n x y = true) :
    h.Matches h.LooselySame x y ∨ Value.SameNumber x y := by
  cases n with
  | zero => cases he
  | succ n =>
    refine matches_of_equalsBy hb he fun step u v _ _ => ⟨?_, ?_⟩
    · exact fun huv => Or.inr ⟨n, Or.inl huv⟩
    · exact fun hvu => Or.inr ⟨n, Or.inr hvu⟩

/-- On each level, values that `==` finds to be the same match or are numbers. -/
theorem LooselySame.cases (hb : h.HashesBuilt) (hs : h.LooselySame x y) :
    h.Matches h.LooselySame x y ∨ Value.Numbers x y := by
  rcases hs with rfl | ⟨n, hxy | hyx⟩
  · exact Or.inl .self
  · exact (matches_of_equalsWithin hb hxy).imp_right Value.SameNumber.numbers
  · rcases matches_of_equalsWithin hb hyx with hm | hnumber
    · exact Or.inl (hm.symm.imp fun _ _ _ _ _ => LooselySame.symm)
    · exact Or.inr hnumber.numbers.symm

theorem Matches.kind_eq (hm : h.Matches R x y) : x.kind = y.kind := by
  cases hm with
  | self | arrays _ | hashes _ => rfl

/-- Values that match agree behind every turn. -/
theorem Matches.turn (hm : h.Matches h.LooselySame x y) (turn : Turn) :
    Option.Rel h.LooselySame (h.turn? x turn) (h.turn? y turn) := by
  cases hm with
  | self => exact rel_self (fun x => Or.inl rfl) _
  | arrays hparts | hashes hparts =>
    cases turn with
    | into step => exact hparts step
    | carried => exact .none

theorem rel_bind {p q : Option Value} {f g : Value → Option Value} (hr : Option.Rel R p q)
    (hf : ∀ x y, R x y → Option.Rel S (f x) (g y)) : Option.Rel S (p.bind f) (q.bind g) := by
  cases hr with
  | none => exact .none
  | some hxy => exact hf _ _ hxy

/-- Where `==` finds values to be the same, they have the same kind or are mixed numbers at every
position. -/
theorem LooselySame.follow (hb : h.HashesBuilt) (hs : h.LooselySame x y) (path : List Turn) :
    Option.Rel (fun v w => v.kind = w.kind ∨ Value.Mixed v w) (h.follow? x path)
      (h.follow? y path) := by
  induction path generalizing x y with
  | nil =>
    rcases hs.cases hb with hm | hnumbers
    · exact .some (Or.inl hm.kind_eq)
    · exact .some hnumbers.kind_eq_or_mixed
  | cons turn path ih =>
    unfold follow?
    rcases hs.cases hb with hm | hnumbers
    · exact rel_bind (hm.turn turn) fun _ _ => ih
    · rw [hnumbers.turn?, hnumbers.symm.turn?]
      exact .none

/-! ## What strict equality lets through -/

/-- Two values at a position have the same kind, or the position is inside a collection and they
are mixed numbers. -/
def AgreeAt (path : List Turn) (v w : Value) : Prop :=
  v.kind = w.kind ∨ Enters path ∧ Value.Mixed v w

/-- Values that match agree at every position: only what is inside collections may be mixed. -/
theorem Matches.follow (hb : h.HashesBuilt) (hm : h.Matches h.LooselySame x y)
    (path : List Turn) : Option.Rel (AgreeAt path) (h.follow? x path) (h.follow? y path) := by
  cases path with
  | nil => exact .some (Or.inl hm.kind_eq)
  | cons turn path =>
    have hbelow : Option.Rel (fun v w => v.kind = w.kind ∨ Value.Mixed v w)
        (h.follow? x (turn :: path)) (h.follow? y (turn :: path)) :=
      rel_bind (hm.turn turn) fun _ _ hs => hs.follow hb path
    cases hm with
    | self => exact rel_self (fun _ => Or.inl rfl) _
    | arrays hparts | hashes hparts =>
      cases turn with
      | into step =>
        refine rel_imp hbelow fun v w _ _ hvw => hvw.imp_right fun hmixed => ⟨?_, hmixed⟩
        exact ⟨step, List.mem_cons_self⟩
      | carried => exact .none

/-- Values of the same kind with nothing inside agree at every position. -/
theorem agree_of_scalars (hkind : a.kind = b.kind) (ha : ∀ turn, h.turn? a turn = none)
    (hb : ∀ turn, h.turn? b turn = none) (path : List Turn) :
    Option.Rel (AgreeAt path) (h.follow? a path) (h.follow? b path) := by
  cases path with
  | nil => exact .some (Or.inl hkind)
  | cons turn path =>
    simp only [follow?, ha, hb]
    exact .none

/-- Where `==` finds values to be the same that are not mixed themselves, they agree at every
position. -/
theorem equals_follow (hb : h.HashesBuilt) (he : h.equals a b = true) (hmixed : ¬Value.Mixed a b)
    (path : List Turn) : Option.Rel (AgreeAt path) (h.follow? a path) (h.follow? b path) := by
  rcases LooselySame.cases hb (Or.inr ⟨_, Or.inl he⟩) with hm | hnumbers
  · exact hm.follow hb path
  · have hkind : a.kind = b.kind := hnumbers.kind_eq_or_mixed.resolve_right hmixed
    exact agree_of_scalars hkind (hnumbers.turn? h) (hnumbers.symm.turn? h) path

/-- Strict equality goes through returns by itself, and leaves everything else to `==`. -/
theorem strictEquals_follow (hb : h.HashesBuilt) (hs : h.strictEquals a b = true)
    (path : List Turn) : Option.Rel (AgreeAt path) (h.follow? a path) (h.follow? b path) := by
  fun_induction strictEquals h a b generalizing path with
  | case1 | case2 => cases hs
  | case3 fault fault' =>
    have hkind : (Value.error fault).kind = (Value.error fault').kind := rfl
    refine agree_of_scalars hkind ?_ ?_ path <;> exact fun turn => by cases turn <;> rfl
  | case4 v w ih =>
    rcases path with _ | ⟨step | _, path⟩
    · exact .some (Or.inl rfl)
    · exact .none
    · refine rel_imp (ih hs path) fun x y _ _ hxy => hxy.imp_right ?_
      rintro ⟨⟨step, hstep⟩, hmixed⟩
      exact ⟨⟨step, List.mem_cons_of_mem _ hstep⟩, hmixed⟩
  | case5 => refine agree_of_scalars rfl ?_ ?_ path <;> exact fun turn => by cases turn <;> rfl
  | case6 a b hleft hright =>
    refine equals_follow hb hs ?_ path
    unfold Value.Mixed
    split
    · exact absurd rfl (hleft _ _ rfl)
    · exact absurd rfl (hright _ _ rfl)
    · exact id

theorem map_kind_eq {p q : Option Value} (hr : Option.Rel (AgreeAt path) p q)
    (hnot : ∀ v w, p = some v → q = some w → Enters path → ¬Value.Mixed v w) :
    p.map Value.kind = q.map Value.kind := by
  cases hr with
  | none => rfl
  | some hvw =>
    rcases hvw with hkind | ⟨henters, hmixed⟩
    · exact congrArg some hkind
    · exact absurd hmixed (hnot _ _ rfl rfl henters)

end Heap

theorem Value.Mixed.float {v w : Value} (hm : Mixed v w) : v.kind = .float ∨ w.kind = .float := by
  unfold Mixed at hm
  split at hm
  · exact Or.inr rfl
  · exact Or.inl rfl
  · exact hm.elim

/-- Values that are strictly equal have the same kind at every position that is not inside a
collection. Inside collections they have the same kind too, unless an integer stands where the
other one has the float of the same value; so without floats they have the same kind everywhere. -/
theorem strict_equality_keeps_kinds {h : Heap} (hb : h.HashesBuilt) {a b : Value}
    (hs : h.strictEquals a b = true) :
    (∀ path, Option.Rel (Heap.AgreeAt path) (h.follow? a path) (h.follow? b path)) ∧
    (∀ path, ¬Enters path →
      (h.follow? a path).map Value.kind = (h.follow? b path).map Value.kind) ∧
    ((∀ path v, h.follow? a path = some v ∨ h.follow? b path = some v → v.kind ≠ .float) →
      ∀ path, (h.follow? a path).map Value.kind = (h.follow? b path).map Value.kind) := by
  have hagree := Heap.strictEquals_follow hb hs
  refine ⟨hagree, ?_, ?_⟩
  · intro path houtside
    exact Heap.map_kind_eq (hagree path) fun _ _ _ _ henters => absurd henters houtside
  · intro hfloat path
    refine Heap.map_kind_eq (hagree path) fun v w hv hw _ hmixed => ?_
    rcases hmixed.float with hkind | hkind
    · exact hfloat path v (Or.inl hv) hkind
    · exact hfloat path w (Or.inr hw) hkind

/-- Returned arrays of mixed numbers. -/
theorem returned_arrays_keep_kind :
    let h : Heap := ⟨#[#[.integer 1], #[.float 1.0]], #[]⟩
    (h.HashesBuilt ∧
      h.strictEquals (.returning (.array ⟨0⟩)) (.returning (.array ⟨1⟩)) = true ∧
      ¬Enters [.carried]) ∧
    (h.follow? (.returning (.array ⟨0⟩)) [.carried]).map Value.kind =
      (h.follow? (.returning (.array ⟨1⟩)) [.carried]).map Value.kind := by
  intro h
  have hbuilt : h.HashesBuilt := by simp [Heap.HashesBuilt, h]
  have hsame : h.strictEquals (.returning (.array ⟨0⟩)) (.returning (.array ⟨1⟩)) = true := by
    decide
  have houtside : ¬Enters [.carried] := by simp [Enters]
  exact ⟨⟨hbuilt, hsame, houtside⟩, (strict_equality_keeps_kinds hbuilt hsame).2.1 _ houtside⟩

/-- An array with an integer and an array with a float are strictly equal. -/
theorem strictly_equal_arrays_of_mixed_numbers :
    let h : Heap := ⟨#[#[.integer 1], #[.float 1.0]], #[]⟩
    h.Acyclic (.array ⟨0⟩) ∧ h.Acyclic (.array ⟨1⟩) ∧
      h.strictEquals (.array ⟨0⟩) (.array ⟨1⟩) = true ∧
      (h.follow? (.array ⟨0⟩) [.into (.element 0)]).map Value.kind = some .integer ∧
      (h.follow? (.array ⟨1⟩) [.into (.element 0)]).map Value.kind = some .float := by
  intro h
  have hacyclic : ∀ v, h.Acyclic v := by
    refine Heap.acyclic_of_rank (fun _ => 0) ?_
    rintro c d ⟨w, hw, hd⟩
    rcases c with ⟨_ | _ | i⟩ | ⟨i⟩
    · rw [show w = .integer 1 from List.mem_singleton.mp hw] at hd
      cases hd
    · rw [show w = .float 1.0 from List.mem_singleton.mp hw] at hd
      cases hd
    · cases hw
    · cases hw
  exact ⟨hacyclic _, hacyclic _, by decide, rfl, rfl⟩

end ScriptLang
