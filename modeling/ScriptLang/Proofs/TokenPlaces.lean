-- The tokens of a source text lose nothing of it. The text is the texts of the tokens, in their
-- order, with gaps between them that hold only blanks, line feeds and comments, and every token
-- stands at the line and the column at which its text starts.
import Mathlib
import ScriptLang.Proofs.CanonicalTokens

namespace ScriptLang

/-! ## Gaps -/

/-- Text that separates tokens, where `behind` stands behind it. A comment to the end of the line
stops at a line feed or at the end of the source; a block comment stops at its first end, or goes
on to the end of the source. -/
inductive Gap : List Char → List Char → Prop where
  | nil (behind : List Char) : Gap [] behind
  | blank {c : Char} {gap behind : List Char} (hc : isBlank c = true ∨ c = '\n')
      (h : Gap gap behind) : Gap (c :: gap) behind
  | line {text gap behind : List Char} (ht : '\n' ∉ text)
      (hend : ∀ c cs, gap ++ behind = c :: cs → c = '\n') (h : Gap gap behind) :
      Gap ('/' :: '/' :: (text ++ gap)) behind
  | block {text gap behind : List Char} (ht : ¬['*', '/'] <:+: text) (h : Gap gap behind) :
      Gap ('/' :: '*' :: (text ++ '*' :: '/' :: gap)) behind
  | unclosed {text : List Char} (ht : ¬['*', '/'] <:+: text) : Gap ('/' :: '*' :: text) []

theorem Gap.blanks {bs gap behind : List Char} (hb : ∀ c ∈ bs, isBlank c = true)
    (h : Gap gap behind) : Gap (bs ++ gap) behind := by
  induction bs with
  | nil => exact h
  | cons c bs ih =>
    have hc := hb c (by simp)
    exact .blank (.inl hc) (ih fun d hd => hb d (by simp [hd]))

/-! ## Gaps between lexemes -/

namespace Lexeme

/-- What separates tokens makes a gap with the gap behind it. -/
theorem Starts.gap_append {c : Char} {cs raw gap behind : List Char}
    (h : Starts c cs (.gap raw)) (hrest : raw ++ (gap ++ behind) = c :: cs)
    (hgap : Gap gap behind) : Gap (raw ++ gap) behind := by
  cases h with
  | lineFeed hc => exact .blank (.inr hc) hgap
  | blanks hc =>
    refine .blank (.inl hc) (.blanks (fun d hd => ?_) hgap)
    exact (List.mem_takeWhile_imp hd)
  | lineComment hc hcs =>
    obtain ⟨rest, rfl⟩ := eq_cons_of_head? hcs
    rw [hc, List.takeWhile_cons_of_pos rfl] at hrest ⊢
    have hline : rest.takeWhile (· ≠ '\n') ++ (gap ++ behind) = rest := by simpa using hrest
    refine .line ?_ ?_ hgap
    · intro hmem
      simpa using List.mem_takeWhile_imp hmem
    · -- The comment takes all of its line, so a line feed comes next if anything does.
      intro d ds hd
      rw [hd] at hline
      simpa using behind_takeWhile hline
  | blockComment hc hcs =>
    obtain ⟨rest, rfl⟩ := eq_cons_of_head? hcs
    rw [List.drop_one, List.tail_cons, hc] at *
    rcases commentBody_eq rest with ⟨text, more, htext, -, hbody⟩ | ⟨htext, hbody⟩
    · rw [hbody]
      simpa using Gap.block htext hgap
    · rw [hbody] at hrest ⊢
      have hnil : gap ++ behind = [] := by simpa using hrest
      obtain ⟨rfl, rfl⟩ := List.append_eq_nil_iff.mp hnil
      simpa using Gap.unclosed htext

end Lexeme

/-! ## Tokens in their places -/

/-- The text of a token, with the quotes of a string. -/
def Token.raw (token : Token) : List Char :=
  if token.kind = .string then '"' :: (token.literal.toList ++ ['"']) else token.literal.toList

/-- A token as it is read, and the gap before it. -/
structure PlacedToken where
  gap : List Char
  reading : Reading

/-- The offset at which a token was read. -/
def PlacedToken.offset (placed : PlacedToken) : Nat := placed.reading.offset

def PlacedToken.token (placed : PlacedToken) : Token := placed.reading.token

def PlacedToken.text (placed : PlacedToken) : List Char := placed.gap ++ placed.token.raw

/-- The text of tokens one after the other, with the gaps before them. -/
def laidText (tokens : List PlacedToken) : List Char := (tokens.map PlacedToken.text).flatten

/-- A token between the text before it and the text behind it: its gap separates tokens, and it
starts at its offset, at the line that the line feeds before it give and as many bytes behind the
start of that line as its column says. What the scanner has counted as the start of the line is
that start, and so the subtraction that gives the column does not go below zero. -/
structure PlacedToken.Fits (placed : PlacedToken) (before behind : List Char) : Prop where
  gap : Gap placed.gap (placed.token.raw ++ behind)
  offset : placed.offset = byteLength (before ++ placed.gap)
  line : placed.token.position.line = 1 + (before ++ placed.gap).count '\n'
  counted : placed.reading.counters.lineStart = lineStart (before ++ placed.gap)
  counted_le : placed.reading.counters.lineStart ≤ placed.offset
  column : placed.token.position.column = 1 + (placed.offset - lineStart (before ++ placed.gap))

/-- Tokens that fit behind a text and before each other. -/
def Laid : List Char → List PlacedToken → Prop
  | _, [] => True
  | before, placed :: rest =>
    placed.Fits before (laidText rest) ∧ Laid (before ++ placed.text) rest

/-- A token without a gap, read behind a text with the counters of that text. -/
theorem PlacedToken.Fits.of_after (kind : TokenKind) (literal : String)
    (before behind : List Char) :
    PlacedToken.Fits ⟨[], kind, literal, byteLength before, .after before⟩ before behind := by
  refine ⟨.nil _, ?_, ?_, ?_, ?_, ?_⟩
  · rw [List.append_nil]
    rfl
  · rw [List.append_nil]
    rfl
  · rw [List.append_nil]
    rfl
  · exact ScriptLang.lineStart_le before
  · rw [List.append_nil, Nat.add_comm]
    rfl

/-- More text before a token that is part of its gap. -/
theorem PlacedToken.Fits.behind_gap {placed : PlacedToken} {before behind raw : List Char}
    (h : placed.Fits (before ++ raw) behind)
    (hgap : Gap (raw ++ placed.gap) (placed.token.raw ++ behind)) :
    Fits { placed with gap := raw ++ placed.gap } before behind := by
  obtain ⟨-, hoffset, hline, hcounted, hle, hcolumn⟩ := h
  rw [List.append_assoc] at hoffset hline hcounted hcolumn
  exact ⟨hgap, hoffset, hline, hcounted, hle, hcolumn⟩

/-- What a token keeps of a lexeme is enough to give its text back. -/
theorem Lexeme.Starts.token_raw {c : Char} {cs raw : List Char} {kind : TokenKind}
    (h : Starts c cs (.token kind raw)) (position : Position) :
    Token.raw ⟨kind, Lexeme.literal kind raw, position⟩ = raw := by
  have hplain (hkind : kind ≠ .string) :
      Token.raw ⟨kind, Lexeme.literal kind raw, position⟩ = raw := by
    simp [Token.raw, Lexeme.literal, hkind]
  cases h with
  | number hc hkind htail hline => exact hplain (by rcases hkind with rfl | rfl <;> decide)
  | word hc => exact hplain (ofWord_ne_string _)
  | string hc hcs => simp [Token.raw, Lexeme.literal, hc]
  | sign hkind htext => exact hplain (by rintro rfl; revert hkind; decide)
  | illegal hc => exact hplain (by decide)

/-- What is read of the text `cs` behind the text `before`, in its places. -/
structure Lays (before cs : List Char) (tokens : List PlacedToken) : Prop where
  scanned : tokens.map PlacedToken.reading = (scan (.after before) (byteLength before) cs).1 ++
    [⟨.endOfText, "", byteLength (before ++ cs),
      (scan (.after before) (byteLength before) cs).2⟩]
  text : laidText tokens = cs
  laid : Laid before tokens
  increasing : (tokens.map PlacedToken.offset).Pairwise (· < ·)
  from_before : ∀ placed ∈ tokens, byteLength before ≤ placed.offset

theorem lays_nil (before : List Char) :
    Lays before [] [⟨[], .endOfText, "", byteLength before, .after before⟩] := by
  refine ⟨?_, rfl, ⟨.of_after _ _ before _, trivial⟩, ?_, ?_⟩
  · simp [scan]
  · simp
  · simp [PlacedToken.offset]

theorem Lays.gap {before raw cs : List Char} {c : Char} {tokens : List PlacedToken}
    (hfirst : Lexeme.first c cs = .gap raw)
    (h : Lays (before ++ raw) (cs.drop (raw.length - 1)) tokens) :
    ∃ tokens, Lays before (c :: cs) tokens := by
  have hstarts : Lexeme.Starts c cs (.gap raw) := hfirst ▸ Lexeme.starts_first c cs
  have hraw : raw ++ cs.drop (raw.length - 1) = c :: cs := hstarts.raw_append
  obtain ⟨hscanned, htext, hlaid, hincreasing, hfrom⟩ := h
  cases tokens with
  | nil => simp at hscanned
  | cons placed rest =>
    refine ⟨{ placed with gap := raw ++ placed.gap } :: rest, ?_, ?_, ?_, hincreasing, ?_⟩
    · rw [scan_gap hfirst, ← hraw, ← List.append_assoc]
      exact hscanned
    · rw [← hraw, ← htext]
      simp [laidText, PlacedToken.text, PlacedToken.token]
    · obtain ⟨hfits, hrest⟩ := hlaid
      have hbehind : placed.gap ++ (placed.token.raw ++ laidText rest) =
          cs.drop (raw.length - 1) := by
        rw [← htext]
        simp [laidText, PlacedToken.text]
      have hgap := hstarts.gap_append (by rw [hbehind, hraw]) hfits.gap
      refine ⟨hfits.behind_gap hgap, ?_⟩
      simpa [PlacedToken.text, PlacedToken.token] using hrest
    · intro other hother
      have hle : byteLength before ≤ byteLength (before ++ raw) := by simp
      rcases List.mem_cons.mp hother with rfl | hmem
      · exact hle.trans (hfrom placed (by simp))
      · exact hle.trans (hfrom other (by simp [hmem]))

theorem Lays.token {before raw cs : List Char} {c : Char} {kind : TokenKind}
    {tokens : List PlacedToken} (hfirst : Lexeme.first c cs = .token kind raw)
    (h : Lays (before ++ raw) (cs.drop (raw.length - 1)) tokens) :
    Lays before (c :: cs)
      (⟨[], kind, Lexeme.literal kind raw, byteLength before, .after before⟩ :: tokens) := by
  have hstarts : Lexeme.Starts c cs (.token kind raw) := hfirst ▸ Lexeme.starts_first c cs
  have hraw : raw ++ cs.drop (raw.length - 1) = c :: cs := hstarts.raw_append
  have htoken := hstarts.token_raw ((Counters.after before).place (byteLength before))
  obtain ⟨hscanned, htext, hlaid, hincreasing, hfrom⟩ := h
  have hless : byteLength before < byteLength (before ++ raw) := by
    obtain ⟨tail, heq, -⟩ := hstarts.raw_eq
    have hpos : 0 < byteLength raw := byteLength_pos (by simp_all [Lexeme.raw])
    simpa using hpos
  have htext' : PlacedToken.text ⟨[], kind, Lexeme.literal kind raw, byteLength before,
      .after before⟩ = raw := htoken
  refine ⟨?_, ?_, ⟨.of_after _ _ before _, ?_⟩, ?_, ?_⟩
  · rw [scan_token hfirst, ← hraw, ← List.append_assoc, List.map_cons, hscanned]
    rfl
  · rw [← hraw, ← htext, laidText, List.map_cons, List.flatten_cons, htext']
    rfl
  · rw [htext']
    exact hlaid
  · refine List.pairwise_cons.mpr ⟨?_, hincreasing⟩
    intro offset hoffset
    obtain ⟨placed, hmem, rfl⟩ := List.mem_map.mp hoffset
    exact Nat.lt_of_lt_of_le hless (hfrom placed hmem)
  · intro placed hmem
    rcases List.mem_cons.mp hmem with rfl | hrest
    · exact Nat.le_refl _
    · exact hless.le.trans (hfrom placed hrest)

/-- Every text has its tokens in their places. The induction is on its length: a lexeme takes at
least one character. -/
theorem exists_lays (before cs : List Char) : ∃ tokens, Lays before cs tokens := by
  induction hn : cs.length using Nat.strongRecOn generalizing before cs with
  | ind n ih =>
    cases cs with
    | nil => exact ⟨_, lays_nil before⟩
    | cons c cs =>
      have hless (k : Nat) : (cs.drop k).length < n := by
        simp only [List.length_cons, List.length_drop] at hn ⊢
        omega
      cases hfirst : Lexeme.first c cs with
      | gap raw =>
        obtain ⟨tokens, h⟩ := ih _ (hless (raw.length - 1)) (before ++ raw) _ rfl
        exact h.gap hfirst
      | token kind raw =>
        obtain ⟨tokens, h⟩ := ih _ (hless (raw.length - 1)) (before ++ raw) _ rfl
        exact ⟨_, h.token hfirst⟩

/-- Nothing of a source text is lost, and every token knows its place: with a gap for each token
that is read, the end of the text included, the source is the gaps and the tokens one after the
other, the offsets increase, and each token fits where it is laid. -/
theorem tokens_laid_in_source (source : String) :
    ∃ tokens : List PlacedToken,
      tokens.map PlacedToken.reading = readings source ∧
      tokens.map PlacedToken.token = tokenize source ∧
      laidText tokens = source.toList ∧
      (tokens.map PlacedToken.offset).Pairwise (· < ·) ∧
      Laid [] tokens := by
  obtain ⟨tokens, h⟩ := exists_lays [] source.toList
  have hreadings : tokens.map PlacedToken.reading = readings source := by
    rw [h.scanned, List.nil_append, byteLength_toList]
    rfl
  refine ⟨tokens, hreadings, ?_, h.text, h.increasing, h.laid⟩
  rw [tokenize_eq_readings, ← hreadings, List.map_map]
  rfl

end ScriptLang
