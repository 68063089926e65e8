-- What the tokens of a source text have in common: a name is a name and no keyword, a string has
-- no quotes in it, and every token stands behind the tokens before it.
import ScriptLang.Proofs.TokenPlaces

namespace ScriptLang

/-! ## The order of places -/

namespace Position

/-- The place `p` comes before the place `q` in a text. -/
def Before (p q : Position) : Prop :=
  p.line < q.line ∨ p.line = q.line ∧ p.column < q.column

theorem Before.trans {p q r : Position} (h : p.Before q) (h' : q.Before r) : p.Before r := by
  unfold Before at *
  omega

theorem Before.ne {p q : Position} (h : p.Before q) : p ≠ q := by
  rintro rfl
  unfold Before at h
  omega

theorem before_step (p : Position) (c : Char) : p.Before (p.step c) := by
  have hsize := c.utf8Size_pos
  unfold Before step
  split
  · left
    simp
  · right
    simp
    omega

theorem before_advance (p : Position) (text : List Char) (h : text ≠ []) :
    p.Before (p.advance text) := by
  induction text generalizing p with
  | nil => exact absurd rfl h
  | cons c text ih =>
    have hstep := before_step p c
    by_cases ht : text = []
    · rw [ht]
      exact hstep
    · exact hstep.trans (ih (p.step c) ht)

end Position

/-! ## Tokens -/

/-- A token whose text is what its kind says. -/
structure Token.Lexed (token : Token) : Prop where
  name : token.kind = .name → IsName token.literal
  string : token.kind = .string → '"' ∉ token.literal.toList

theorem Token.lexed_of_ne {token : Token} (hname : token.kind ≠ .name)
    (hstring : token.kind ≠ .string) : token.Lexed :=
  ⟨fun h => absurd h hname, fun h => absurd h hstring⟩

theorem TokenKind.keyword?_of_ofWord {word : String} (h : ofWord word = .name) :
    keyword? word = none := by
  unfold ofWord at h
  cases hk : keyword? word with
  | none => rfl
  | some kind =>
    have hmem : kind ∈ keywords := List.mem_of_find?_eq_some hk
    rw [hk] at h
    obtain rfl : kind = .name := h
    revert hmem
    decide

/-- A lexeme makes a token of its kind. -/
theorem Lexeme.Starts.lexed {c : Char} {cs raw : List Char} {kind : TokenKind}
    (h : Starts c cs (.token kind raw)) (position : Position) :
    Token.Lexed ⟨kind, Lexeme.literal kind raw, position⟩ := by
  cases h with
  | number hc hkind htail hline =>
    rcases hkind with rfl | rfl
    · exact Token.lexed_of_ne (by simp) (by simp)
    · exact Token.lexed_of_ne (by simp) (by simp)
  | word hc =>
    refine ⟨fun hname => ?_, fun hstring => absurd hstring (ofWord_ne_string _)⟩
    simp only at hname ⊢
    rw [literal_of_ne_string (ofWord_ne_string _)]
    refine ⟨TokenKind.keyword?_of_ofWord hname, c, cs.takeWhile isNameRest, by simp, hc, ?_⟩
    exact fun d hd => List.mem_takeWhile_imp hd
  | string hc hcs =>
    refine ⟨fun hname => absurd hname (by simp), fun _ => ?_⟩
    simp only [Lexeme.literal, if_true, List.drop_succ_cons, List.drop_zero, List.dropLast_concat,
      String.toList_ofList]
    intro hmem
    simpa using List.mem_takeWhile_imp hmem
  | sign hkind htext =>
    refine ⟨?_, ?_⟩
    · rintro rfl
      exact absurd hkind (by decide)
    · rintro rfl
      exact absurd hkind (by decide)
  | illegal hc => exact Token.lexed_of_ne (by simp) (by simp)

/-- The tokens from a place on, in their order. -/
structure InOrder (position : Position) (tokens : List Token) : Prop where
  lexed : ∀ t ∈ tokens, t.Lexed
  from_here : ∀ t ∈ tokens, t.position = position ∨ position.Before t.position
  increasing : (tokens.map Token.position).Pairwise Position.Before

theorem InOrder.behind {position next : Position} {tokens : List Token}
    (h : InOrder next tokens) (hp : position.Before next) :
    ∀ t ∈ tokens, position.Before t.position := by
  intro t ht
  rcases h.from_here t ht with heq | hlt
  · rw [heq]
    exact hp
  · exact hp.trans hlt

/-- The tokens of a text are in order. The induction is on its length: a lexeme takes at least one
character. -/
theorem inOrder_scanFrom (position : Position) (cs : List Char) :
    InOrder position
      ((scanFrom position cs).1 ++ [⟨.endOfText, "", (scanFrom position cs).2⟩]) := by
  induction hn : cs.length using Nat.strongRecOn generalizing position cs with
  | ind n ih =>
    cases cs with
    | nil =>
      have hend : Token.Lexed ⟨.endOfText, "", position⟩ :=
        Token.lexed_of_ne (by simp) (by simp)
      refine ⟨?_, ?_, ?_⟩ <;> simp [scanFrom, hend]
    | cons c cs =>
      have hless (k : Nat) : (cs.drop k).length < n := by
        simp only [List.length_cons, List.length_drop] at hn ⊢
        omega
      have hstarts := Lexeme.starts_first c cs
      obtain ⟨tail, hraw, -⟩ := hstarts.raw_eq
      cases hfirst : Lexeme.first c cs with
      | gap raw =>
        rw [hfirst] at hraw
        have hrest := ih _ (hless (raw.length - 1)) (position.advance raw) _ rfl
        have hpast := position.before_advance raw (by simp_all [Lexeme.raw])
        rw [scanFrom_gap hfirst]
        exact ⟨hrest.lexed, fun t ht => .inr (hrest.behind hpast t ht), hrest.increasing⟩
      | token kind raw =>
        rw [hfirst] at hraw hstarts
        have hrest := ih _ (hless (raw.length - 1)) (position.advance raw) _ rfl
        have hpast := position.before_advance raw (by simp_all [Lexeme.raw])
        rw [scanFrom_token hfirst]
        refine ⟨List.forall_mem_cons.mpr ⟨hstarts.lexed position, hrest.lexed⟩, ?_, ?_⟩
        · refine List.forall_mem_cons.mpr ⟨.inl rfl, fun t ht => ?_⟩
          exact .inr (hrest.behind hpast t ht)
        · refine List.pairwise_cons.mpr ⟨?_, hrest.increasing⟩
          intro place hplace
          obtain ⟨t, ht, rfl⟩ := List.mem_map.mp hplace
          exact hrest.behind hpast t ht

/-- The tokens of a source text are in order. -/
theorem inOrder_tokenize (source : String) : InOrder .start (tokenize source) := by
  rw [tokenize_eq]
  exact inOrder_scanFrom .start source.toList

theorem lexed_tokenize (source : String) : ∀ t ∈ tokenize source, t.Lexed :=
  (inOrder_tokenize source).lexed

/-- No two tokens stand at one place. -/
theorem nodup_tokenize (source : String) : ((tokenize source).map Token.position).Nodup :=
  (inOrder_tokenize source).increasing.imp Position.Before.ne

end ScriptLang
