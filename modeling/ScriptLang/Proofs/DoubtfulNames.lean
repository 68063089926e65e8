-- What the look for doubtful names finds. A read is doubtful if it is in the initializer of its
-- variable and nothing before it in the scope binds the name. A binding is doubtful if its name is
-- that of a builtin function.
import ScriptLang.Proofs.Outline

namespace ScriptLang

/-! ## Sites -/

mutual

/-- The names that are bound in a scope behind a part of it. -/
def Outline.binds : Outline → List String
  | .read _ _ => []
  | .bind name _ => [name]
  | .var name _ initializer => bindsOf initializer ++ [name]
  | .scope _ => []

def bindsOf : List Outline → List String
  | [] => []
  | o :: rest => o.binds ++ bindsOf rest

end

@[simp] theorem bindsOf_append (os os' : List Outline) :
    bindsOf (os ++ os') = bindsOf os ++ bindsOf os' := by
  induction os with
  | nil => rfl
  | cons o os ih => simp [bindsOf, ih]

/-- Something that stands in a scope. -/
structure Site where
  /-- What comes before it in the same scope. -/
  before : List Outline
  /-- The variables of the same scope in whose initializers it stands. -/
  initializing : List String
  item : Outline

namespace Site

/-- The site in a scope, of a site in a part of the scope. -/
def under (before : List Outline) (initializing : List String) (s : Site) : Site :=
  ⟨before ++ s.before, s.initializing ++ initializing, s.item⟩

/-- What is doubtful at a site: a read in the initializer of the variable, unless the name is bound
before, and a binding of the name of a builtin function. -/
def report? (s : Site) : Option Diagnostic :=
  match s.item with
  | .read name position =>
    if name ∈ s.initializing ∧ name ∉ bindsOf s.before then
      some ⟨.selfReference, name, position⟩
    else none
  | .bind name position | .var name position _ =>
    if (Builtin.ofName? name).isSome then some ⟨.shadowsBuiltin, name, position⟩ else none
  | .scope _ => none

end Site

/-- A site is in this scope itself: it is the first part, or behind the first part, or in the
initializer of a variable that is the first part. -/
inductive StandsIn : List Outline → Site → Prop
  | first {o : Outline} {rest : List Outline} : StandsIn (o :: rest) ⟨[], [], o⟩
  | later {o : Outline} {rest : List Outline} {s : Site} (h : StandsIn rest s) :
      StandsIn (o :: rest) (s.under [o] [])
  | initializer {name : String} {position : Position} {initializer rest : List Outline} {s : Site}
      (h : StandsIn initializer s) :
      StandsIn (.var name position initializer :: rest) (s.under [] [name])

/-- A site is in this scope or in a scope inside. -/
inductive Stands : List Outline → Site → Prop
  | here {os : List Outline} {s : Site} (h : StandsIn os s) : Stands os s
  | inside {os inside : List Outline} {s t : Site} (h : StandsIn os t)
      (hscope : t.item = .scope inside) (hs : Stands inside s) : Stands os s

mutual

/-- The sites of a part of a scope in the order in which they are looked at. -/
def Outline.sites (before : List Outline) (initializing : List String) : Outline → List Site
  | .read name position => [⟨before, initializing, .read name position⟩]
  | .bind name position => [⟨before, initializing, .bind name position⟩]
  | .var name position initializer =>
    ⟨before, initializing, .var name position initializer⟩ ::
      sitesOf before (name :: initializing) initializer
  | .scope inside => ⟨before, initializing, .scope inside⟩ :: sitesOf [] [] inside

def sitesOf (before : List Outline) (initializing : List String) : List Outline → List Site
  | [] => []
  | o :: rest => o.sites before initializing ++ sitesOf (before ++ [o]) initializing rest

end

/-! ## The sites are all that stands in the scopes -/

theorem Outline.self_mem_sites (o : Outline) (before : List Outline) (initializing : List String) :
    ⟨before, initializing, o⟩ ∈ o.sites before initializing := by
  cases o <;> simp [Outline.sites]

/-- What stands in a scope is listed, and so is what is listed of the scopes there. -/
theorem StandsIn.mem {os : List Outline} {s : Site} (h : StandsIn os s) (before : List Outline)
    (initializing : List String) :
    s.under before initializing ∈ sitesOf before initializing os ∧
      ∀ inside, s.item = .scope inside →
        ∀ t ∈ sitesOf [] [] inside, t ∈ sitesOf before initializing os := by
  induction h generalizing before initializing with
  | @first o rest =>
    refine ⟨?_, ?_⟩
    · simp only [Site.under, sitesOf, List.mem_append, List.append_nil, List.nil_append]
      exact Or.inl (o.self_mem_sites before initializing)
    · intro inside hscope t ht
      obtain rfl : o = .scope inside := hscope
      simp only [sitesOf, Outline.sites, List.mem_append, List.mem_cons]
      exact Or.inl (Or.inr ht)
  | @later o rest s _ ih =>
    obtain ⟨hself, hinside⟩ := ih (before ++ [o]) initializing
    simp only [sitesOf, List.mem_append]
    refine ⟨Or.inr ?_, fun inside hscope t ht => Or.inr (hinside inside hscope t ht)⟩
    simpa [Site.under] using hself
  | @initializer name position initializer rest s _ ih =>
    obtain ⟨hself, hinside⟩ := ih before (name :: initializing)
    simp only [sitesOf, Outline.sites, List.mem_append, List.mem_cons]
    refine ⟨Or.inl (Or.inr ?_), fun inside hscope t ht =>
      Or.inl (Or.inr (hinside inside hscope t ht))⟩
    simpa [Site.under] using hself

theorem Stands.mem {os : List Outline} {s : Site} (h : Stands os s) : s ∈ sitesOf [] [] os := by
  induction h with
  | @here os s h => simpa [Site.under] using (h.mem [] []).1
  | inside h hscope _ ih => exact (h.mem [] []).2 _ hscope _ ih

/-- A listed site is in the scope itself, or in a scope that stands there. -/
def Listed (before : List Outline) (initializing : List String) (os : List Outline) (s : Site) :
    Prop :=
  (∃ t, StandsIn os t ∧ s = t.under before initializing) ∨
    ∃ t inside, StandsIn os t ∧ t.item = .scope inside ∧ Stands inside s

mutual

theorem Outline.listed (o : Outline) (rest before : List Outline) (initializing : List String)
    (s : Site) (h : s ∈ o.sites before initializing) :
    Listed before initializing (o :: rest) s := by
  match o with
  | .read name position =>
    refine Or.inl ⟨_, .first, ?_⟩
    simpa [Outline.sites, Site.under] using h
  | .bind name position =>
    refine Or.inl ⟨_, .first, ?_⟩
    simpa [Outline.sites, Site.under] using h
  | .var name position initializer =>
    simp only [Outline.sites, List.mem_cons] at h
    rcases h with rfl | h
    · exact Or.inl ⟨_, .first, by simp [Site.under]⟩
    · rcases listed_of_mem initializer before (name :: initializing) s h with
        ⟨t, ht, rfl⟩ | ⟨t, inside, ht, hscope, hs⟩
      · exact Or.inl ⟨_, .initializer ht, by simp [Site.under]⟩
      · exact Or.inr ⟨_, inside, .initializer ht, hscope, hs⟩
  | .scope inside =>
    simp only [Outline.sites, List.mem_cons] at h
    rcases h with rfl | h
    · exact Or.inl ⟨_, .first, by simp [Site.under]⟩
    · refine Or.inr ⟨_, inside, .first, rfl, ?_⟩
      rcases listed_of_mem inside [] [] s h with ⟨t, ht, rfl⟩ | ⟨t, inner, ht, hscope, hs⟩
      · exact .here (by simpa [Site.under] using ht)
      · exact .inside ht hscope hs

theorem listed_of_mem (os before : List Outline) (initializing : List String) (s : Site)
    (h : s ∈ sitesOf before initializing os) : Listed before initializing os s := by
  match os with
  | [] => simp [sitesOf] at h
  | o :: rest =>
    simp only [sitesOf, List.mem_append] at h
    rcases h with h | h
    · exact o.listed rest before initializing s h
    · rcases listed_of_mem rest (before ++ [o]) initializing s h with
        ⟨t, ht, rfl⟩ | ⟨t, inside, ht, hscope, hs⟩
      · exact Or.inl ⟨_, .later ht, by simp [Site.under]⟩
      · exact Or.inr ⟨_, inside, .later ht, hscope, hs⟩

end

theorem mem_sitesOf_iff {os : List Outline} {s : Site} : s ∈ sitesOf [] [] os ↔ Stands os s := by
  refine ⟨fun h => ?_, Stands.mem⟩
  rcases listed_of_mem os [] [] s h with ⟨t, ht, rfl⟩ | ⟨t, inside, ht, hscope, hs⟩
  · exact .here (by simpa [Site.under] using ht)
  · exact .inside ht hscope hs

/-! ## What the checker knows at a site -/

namespace Checker

variable {c d : Checker} {before : List Outline} {initializing : List String} {name : String}

/-- The marks of a checker that has come behind `before` in a scope, in the initializers of some
variables: a name that is bound has its value, and another one has a mark if its initializer has
started. -/
def Knows (before : List Outline) (initializing : List String) (c : Checker) : Prop :=
  ∀ name, c.marks.lookup name =
    if name ∈ bindsOf before then some true
    else if name ∈ initializing then some false
    else none

/-- A scope that opens has no names. -/
theorem knows_of_opened (h : c.marks = []) : Knows [] [] c := by
  intro name
  simp [h, bindsOf]

theorem Knows.of_marks (h : Knows before initializing c) (hm : d.marks = c.marks) :
    Knows before initializing d := by
  intro name
  rw [hm, h name]

/-- What binds no names leaves the marks as they are. -/
theorem Knows.skip {o : Outline} (h : Knows before initializing c) (ho : o.binds = []) :
    Knows (before ++ [o]) initializing c := by
  intro name
  rw [h name]
  simp [bindsOf, ho]

/-- The initializer of a variable starts. A name that has a mark keeps it. -/
theorem Knows.declare (h : Knows before initializing c) :
    Knows before (name :: initializing) (c.declare name) := by
  intro other
  by_cases hother : other = name
  · subst hother
    have hmark := h other
    by_cases hbound : other ∈ bindsOf before
    · rw [if_pos hbound] at hmark
      simp [Checker.declare, hmark, hbound]
    · by_cases hstarted : other ∈ initializing
      · rw [if_neg hbound, if_pos hstarted] at hmark
        simp [Checker.declare, hmark, hbound]
      · rw [if_neg hbound, if_neg hstarted] at hmark
        simp [Checker.declare, hmark, hbound]
  · rw [declare_ne hother, h other]
    simp [hother]

/-- A name gets its value, and no other name is bound or started. -/
theorem Knows.define {before' : List Outline} {initializing' : List String}
    (h : Knows before initializing c) (hname : name ∈ bindsOf before')
    (hothers : ∀ other, other ≠ name → (other ∈ bindsOf before' ↔ other ∈ bindsOf before) ∧
      (other ∈ initializing' ↔ other ∈ initializing)) :
    Knows before' initializing' (c.define name) := by
  intro other
  rw [define_marks]
  by_cases hother : other = name
  · subst hother
    rw [Marks.lookup_cons_self, if_pos hname]
  · rw [Marks.lookup_cons_ne hother, h other]
    simp only [hothers other hother]

/-- A read is reported at its site, and leaves the rest as it is. -/
theorem found_read (h : Knows before initializing c) (position : Position) :
    (c.read name position).found = c.found ++
      ((Outline.read name position).sites before initializing).filterMap Site.report? := by
  unfold Checker.read
  rw [h name]
  by_cases hbound : name ∈ bindsOf before
  · simp [Outline.sites, Site.report?, hbound]
  · by_cases hstarted : name ∈ initializing
    · simp [Outline.sites, Site.report?, hbound, hstarted, report]
    · simp [Outline.sites, Site.report?, hbound, hstarted]

theorem found_bind (name : String) (position : Position) (c : Checker) :
    (c.bind name position).found = c.found ++
      (if (Builtin.ofName? name).isSome then [⟨.shadowsBuiltin, name, position⟩] else []) := by
  unfold Checker.bind
  split
  · rfl
  · exact (List.append_nil _).symm

end Checker

/-- From one checker to another, what is doubtful at some sites has been reported, and the other
one has come behind `before` in its scope. -/
structure Looked (sites : List Site) (before : List Outline) (initializing : List String)
    (c d : Checker) : Prop where
  found : d.found = c.found ++ sites.filterMap Site.report?
  knows : d.Knows before initializing

mutual

/-- What the look at one part of a scope does. -/
theorem Outline.looked (o : Outline) (before : List Outline) (initializing : List String)
    (c : Checker) (h : c.Knows before initializing) :
    Looked (o.sites before initializing) (before ++ [o]) initializing c (o.check c) := by
  match o with
  | .read name position =>
    refine ⟨Checker.found_read h position, ?_⟩
    exact (h.of_marks (c.read_marks name position)).skip rfl
  | .bind name position =>
    have hbound : (c.bind name position).Knows before initializing :=
      h.of_marks (c.bind_marks name position)
    refine ⟨?_, hbound.define (by simp [bindsOf, Outline.binds]) ?_⟩
    · refine (c.found_bind name position).trans ?_
      simp only [Outline.sites, List.filterMap_cons, Site.report?, List.filterMap_nil]
      split <;> rfl
    · intro other hother
      simp [bindsOf, Outline.binds, hother]
  | .var name position initializer =>
    have hbound : (c.bind name position).Knows before initializing :=
      h.of_marks (c.bind_marks name position)
    have hstarted : ((c.bind name position).declare name).Knows before (name :: initializing) :=
      hbound.declare
    have hinit := looked_all initializer before (name :: initializing) _ hstarted
    refine ⟨?_, hinit.knows.define (by simp [bindsOf, Outline.binds]) ?_⟩
    · refine hinit.found.trans ?_
      rw [Checker.declare_found, c.found_bind]
      simp only [Outline.sites, List.filterMap_cons, Site.report?, List.append_assoc]
      split <;> rfl
    · intro other hother
      simp [bindsOf, Outline.binds, hother]
  | .scope inside =>
    have hinside := looked_all inside [] [] c.enter (Checker.knows_of_opened rfl)
    have hback := Checker.inside_marks (checkOutlines_follows inside c.enter).outer
    exact ⟨hinside.found, (h.of_marks hback).skip rfl⟩

/-- What the look at a scope does, part after part. -/
theorem looked_all (os before : List Outline) (initializing : List String) (c : Checker)
    (h : c.Knows before initializing) :
    Looked (sitesOf before initializing os) (before ++ os) initializing c
      (checkOutlines os c) := by
  match os with
  | [] => exact ⟨(List.append_nil _).symm, by simpa using h⟩
  | o :: rest =>
    have hfirst := o.looked before initializing c h
    have hrest := looked_all rest (before ++ [o]) initializing _ hfirst.knows
    refine ⟨?_, by simpa using hrest.knows⟩
    rw [checkOutlines_cons, hrest.found, hfirst.found, sitesOf, List.filterMap_append,
      List.append_assoc]

end

/-! ## The law -/

/-- The look for doubtful names reports exactly the doubtful sites of a program, in the order in
which they are written: the reads of a name in the initializer of its variable, where no scope
lies between and nothing before in the scope binds the name, and the bindings of names of builtin
functions. -/
theorem doubtful_names_are_reported (p : Program) :
    checkProgram p = (sitesOf [] [] (outlineOfStatements p)).filterMap Site.report? ∧
    ∀ s, s ∈ sitesOf [] [] (outlineOfStatements p) ↔ Stands (outlineOfStatements p) s := by
  refine ⟨?_, fun s => mem_sitesOf_iff⟩
  unfold checkProgram
  rw [checkStatements_eq]
  exact (looked_all _ [] [] _ (Checker.knows_of_opened rfl)).found

example (first second : Position) :
    checkProgram [.var "a" (.array [.identifier "a" first,
      .function (.mk (some "a") [] (.mk [] first)) first, .identifier "a" second] first) first] =
        [⟨.selfReference, "a", first⟩] := by
  rfl

end ScriptLang
