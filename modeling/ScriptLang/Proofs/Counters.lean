-- Counters and places. The scanner counts lines in three different ways: at a line feed between
-- tokens, behind the opening of a block comment, and in a string once its token has been placed.
-- However it counts, the counters are always those of the text before, and every place is the one
-- to which following the text character by character leads.
import ScriptLang.Proofs.Lexemes

namespace ScriptLang

/-! ## Lines and bytes of a text -/

/-- The offset of the last line of a text: that of what stands behind its last line feed. -/
def lineStart (text : List Char) : Nat := byteLength (text.rdropWhile (· ≠ '\n'))

@[simp] theorem byteLength_nil : byteLength [] = 0 := rfl

@[simp] theorem byteLength_cons (c : Char) (text : List Char) :
    byteLength (c :: text) = c.utf8Size + byteLength text := rfl

@[simp] theorem byteLength_append (a b : List Char) :
    byteLength (a ++ b) = byteLength a + byteLength b := by
  induction a with
  | nil => simp
  | cons c a ih => simp [ih, Nat.add_assoc]

theorem byteLength_pos {text : List Char} (h : text ≠ []) : 0 < byteLength text := by
  cases text with
  | nil => exact absurd rfl h
  | cons c cs =>
    have hc := c.utf8Size_pos
    rw [byteLength_cons]
    omega

theorem byteLength_eq (text : List Char) :
    byteLength text = (String.ofList text).utf8ByteSize := by
  induction text with
  | nil => rfl
  | cons c cs ih =>
    have hcons : String.ofList (c :: cs) = String.singleton c ++ String.ofList cs := by
      rw [String.singleton_eq_ofList, ← String.ofList_append]
      rfl
    rw [hcons, String.utf8ByteSize_append, String.utf8ByteSize_singleton, byteLength_cons, ih]

theorem byteLength_toList (source : String) : byteLength source.toList = source.utf8ByteSize := by
  rw [byteLength_eq, String.ofList_toList]

theorem lineStart_snoc (text : List Char) (c : Char) :
    lineStart (text ++ [c]) = if c = '\n' then byteLength (text ++ [c]) else lineStart text := by
  unfold lineStart
  rw [List.rdropWhile_concat]
  by_cases hc : c = '\n' <;> simp [hc]

theorem lineStart_le (text : List Char) : lineStart text ≤ byteLength text := by
  obtain ⟨rest, hrest⟩ := List.rdropWhile_prefix (· ≠ '\n') text
  unfold lineStart
  conv_rhs => rw [← hrest]
  rw [byteLength_append]
  omega

/-! ## The counters of a text -/

namespace Counters

/-- The counters behind a text. -/
def after (before : List Char) : Counters :=
  { line := 1 + before.count '\n', lineStart := ScriptLang.lineStart before }

theorem after_snoc (before : List Char) (c : Char) :
    after (before ++ [c]) =
      if c = '\n' then ⟨(after before).line + 1, byteLength before + c.utf8Size⟩
      else after before := by
  unfold after
  rw [lineStart_snoc]
  by_cases hc : c = '\n' <;> simp [hc, Nat.add_assoc]

/-- Counting the line feeds of a text leads to the counters behind it. -/
theorem advanceOver_after (before text : List Char) :
    (after before).advanceOver (byteLength before) text = after (before ++ text) := by
  induction text generalizing before with
  | nil =>
    rw [List.append_nil]
    rfl
  | cons c cs ih =>
    have hrest := ih (before ++ [c])
    rw [after_snoc, byteLength_append, List.append_assoc] at hrest
    by_cases hc : c = '\n' <;> simpa [advanceOver, hc] using hrest

/-- Text without line feeds does not move the counters. -/
theorem after_append {text : List Char} (h : '\n' ∉ text) (before : List Char) :
    after (before ++ text) = after before := by
  induction text using List.reverseRecOn with
  | nil => rw [List.append_nil]
  | append_singleton text c ih =>
    simp only [List.mem_append, List.mem_singleton, not_or] at h
    rw [← List.append_assoc, after_snoc, if_neg (Ne.symm h.2), ih h.1]

theorem overGap_of_plain {raw : List Char} (h : '\n' ∉ raw)
    (hcomment : ∀ body, raw ≠ '/' :: '*' :: body) (counters : Counters) (offset : Nat) :
    counters.overGap offset raw = counters := by
  unfold overGap
  split
  · exact absurd (List.mem_singleton_self '\n') h
  · exact absurd rfl (hcomment _)
  · rfl

/-- Behind a gap the counters are those behind the text so far. -/
theorem overGap_after {c : Char} {cs raw : List Char} (h : Lexeme.Starts c cs (.gap raw))
    (before : List Char) :
    (after before).overGap (byteLength before) raw = after (before ++ raw) := by
  have hplain (hline : '\n' ∉ raw) (hcomment : ∀ body, raw ≠ '/' :: '*' :: body) :
      (after before).overGap (byteLength before) raw = after (before ++ raw) := by
    rw [overGap_of_plain hline hcomment, after_append hline]
  cases h with
  | lineFeed hc =>
    rw [hc, after_snoc, if_pos rfl]
    rfl
  | blanks hc =>
    have hne : '\n' ≠ c := by
      rintro rfl
      cases hc
    refine hplain (List.not_mem_cons_of_ne_of_not_mem hne ?_) ?_
    · exact Lexeme.lineFeed_not_mem_takeWhile rfl cs
    · rintro body hbody
      rw [(List.cons.inj hbody).1] at hc
      cases hc
  | lineComment hc hcs =>
    obtain ⟨rest, rfl⟩ := Lexeme.eq_cons_of_head? hcs
    have hne : '\n' ≠ c := by
      rw [hc]
      decide
    refine hplain (List.not_mem_cons_of_ne_of_not_mem hne ?_) ?_
    · exact Lexeme.lineFeed_not_mem_takeWhile rfl _
    · rintro body hbody
      simp at hbody
  | blockComment hc hcs =>
    have hopened : after (before ++ ['/', '*']) = after before := after_append (by decide) before
    have hbody := advanceOver_after (before ++ ['/', '*']) (Lexeme.commentBody (cs.drop 1))
    rw [hopened, byteLength_append, List.append_assoc] at hbody
    rw [hc]
    exact hbody

/-- Behind a token the counters are those behind the text so far. -/
theorem overToken_after {c : Char} {cs raw : List Char} {kind : TokenKind}
    (h : Lexeme.Starts c cs (.token kind raw)) (before : List Char) :
    (after before).overToken (byteLength before) kind raw = after (before ++ raw) := by
  unfold overToken
  by_cases hkind : kind = .string
  · rw [if_pos hkind, advanceOver_after]
  · rw [if_neg hkind, after_append (h.lineFeed_not_mem hkind)]

end Counters

/-! ## Places -/

namespace Position

/-- The place behind one character. A line feed starts a new line. -/
def step (p : Position) (c : Char) : Position :=
  if c = '\n' then ⟨p.line + 1, 1⟩ else ⟨p.line, p.column + c.utf8Size⟩

/-- The place behind a stretch of text. -/
def advance (p : Position) (text : List Char) : Position :=
  text.foldl step p

@[simp] theorem advance_nil (p : Position) : p.advance [] = p := rfl

theorem advance_append (p : Position) (a b : List Char) :
    p.advance (a ++ b) = (p.advance a).advance b := by
  simp [advance, List.foldl_append]

/-- The place behind a text: its line feeds give the line, the bytes of its last line the
column. -/
theorem advance_start (text : List Char) :
    start.advance text = (Counters.after text).place (byteLength text) := by
  induction text using List.reverseRecOn with
  | nil => rfl
  | append_singleton text c ih =>
    have hle := lineStart_le text
    rw [advance_append, ih, Counters.after_snoc]
    by_cases hc : c = '\n'
    · simp [advance, step, Counters.place, hc]
    · simp only [advance, List.foldl_cons, List.foldl_nil, step, Counters.place, hc, if_false,
        byteLength_append, byteLength_cons, byteLength_nil, Position.mk.injEq, true_and]
      change byteLength text - lineStart text + 1 + c.utf8Size =
        byteLength text + (c.utf8Size + 0) - lineStart text + 1
      omega

end Position

/-! ## Reading without counters -/

/-- The tokens of the text that stands at a place, and the place behind it, where the place is
followed character by character. -/
def scanFrom (position : Position) : List Char → List Token × Position
  | [] => ([], position)
  | c :: cs =>
    let lexeme := Lexeme.first c cs
    let next := position.advance lexeme.raw
    let scanned := scanFrom next (cs.drop (lexeme.raw.length - 1))
    match lexeme with
    | .gap _ => scanned
    | .token kind raw => (⟨kind, Lexeme.literal kind raw, position⟩ :: scanned.1, scanned.2)
termination_by cs => cs.length

section Lexemes

variable {c : Char} {cs raw : List Char} {kind : TokenKind}

theorem scanFrom_gap (h : Lexeme.first c cs = .gap raw) (position : Position) :
    scanFrom position (c :: cs) =
      scanFrom (position.advance raw) (cs.drop (raw.length - 1)) := by
  rw [scanFrom]
  simp [h, Lexeme.raw]

theorem scanFrom_token (h : Lexeme.first c cs = .token kind raw) (position : Position) :
    scanFrom position (c :: cs) =
      (⟨kind, Lexeme.literal kind raw, position⟩ ::
          (scanFrom (position.advance raw) (cs.drop (raw.length - 1))).1,
        (scanFrom (position.advance raw) (cs.drop (raw.length - 1))).2) := by
  rw [scanFrom]
  simp [h, Lexeme.raw]

/-- Behind a gap the scanner goes on with the counters of the text so far. -/
theorem scan_gap (h : Lexeme.first c cs = .gap raw) (before : List Char) :
    scan (.after before) (byteLength before) (c :: cs) =
      scan (.after (before ++ raw)) (byteLength (before ++ raw)) (cs.drop (raw.length - 1)) := by
  rw [← Counters.overGap_after (h ▸ Lexeme.starts_first c cs), byteLength_append, scan]
  simp [h, Lexeme.raw]

/-- A token is placed by the counters before it. Behind it the scanner goes on with those of the
text so far. -/
theorem scan_token (h : Lexeme.first c cs = .token kind raw) (before : List Char) :
    let rest := scan (.after (before ++ raw)) (byteLength (before ++ raw))
      (cs.drop (raw.length - 1))
    scan (.after before) (byteLength before) (c :: cs) =
      (⟨kind, Lexeme.literal kind raw, byteLength before, .after before⟩ :: rest.1, rest.2) := by
  dsimp only
  rw [← Counters.overToken_after (h ▸ Lexeme.starts_first c cs), byteLength_append, scan]
  simp [h, Lexeme.raw]

end Lexemes

/-- The scanner places every token where following the text would, and ends with the counters of
the whole text. The induction is on the length of the text: a lexeme takes at least one
character. -/
theorem scan_after (before cs : List Char) :
    (scan (.after before) (byteLength before) cs).1.map Reading.token =
        (scanFrom (Position.start.advance before) cs).1 ∧
      (scan (.after before) (byteLength before) cs).2 = .after (before ++ cs) ∧
      (scanFrom (Position.start.advance before) cs).2 =
        Position.start.advance (before ++ cs) := by
  induction hn : cs.length using Nat.strongRecOn generalizing before cs with
  | ind n ih =>
    cases cs with
    | nil => simp [scan, scanFrom]
    | cons c cs =>
      have hless (k : Nat) : (cs.drop k).length < n := by
        simp only [List.length_cons, List.length_drop] at hn ⊢
        omega
      have hraw := (Lexeme.starts_first c cs).raw_append
      cases hfirst : Lexeme.first c cs with
      | gap raw =>
        rw [hfirst, Lexeme.raw] at hraw
        have hrest := ih _ (hless (raw.length - 1)) (before ++ raw) _ rfl
        rw [Position.advance_append, List.append_assoc, hraw] at hrest
        rw [scan_gap hfirst, scanFrom_gap hfirst]
        exact hrest
      | token kind raw =>
        rw [hfirst, Lexeme.raw] at hraw
        obtain ⟨htokens, hrest⟩ := ih _ (hless (raw.length - 1)) (before ++ raw) _ rfl
        rw [List.append_assoc, hraw, Position.advance_append] at hrest
        rw [Position.advance_append] at htokens
        rw [scan_token hfirst, scanFrom_token hfirst]
        refine ⟨?_, hrest⟩
        rw [List.map_cons, htokens, Position.advance_start]
        rfl

/-- The tokens of a source text are those that are read without counters. -/
theorem tokenize_eq (source : String) :
    tokenize source = (scanFrom .start source.toList).1 ++
      [⟨.endOfText, "", (scanFrom .start source.toList).2⟩] := by
  obtain ⟨htokens, hcounters, hplace⟩ := scan_after [] source.toList
  rw [List.nil_append] at hcounters hplace
  change (scan .start 0 source.toList).2 = _ at hcounters
  change (scanFrom .start source.toList).2 = _ at hplace
  rw [hplace, Position.advance_start, byteLength_toList, ← hcounters]
  exact congrArg (· ++ _) htokens

/-- The tokens of a source text are what is read of it, in their places. -/
theorem tokenize_eq_readings (source : String) :
    tokenize source = (readings source).map Reading.token := by
  simp [tokenize, readings, TokenStream.toList, TokenStream.ofSource, TokenStream.last,
    Reading.token]

end ScriptLang
