-- The tokens of a text that goes on behind a line feed. No lexeme but an open comment or an open
-- string runs over a line feed that stands behind the text, so the tokens of the longer text are
-- those of the two parts.
import ScriptLang.Proofs.SourceTokens

namespace ScriptLang

/-! ## Lexemes before a line feed -/

namespace Lexeme

variable {cs : List Char}

theorem takeWhile_line {p : Char → Bool} (h : p '\n' = false) (cs more : List Char) :
    (cs ++ '\n' :: more).takeWhile p = cs.takeWhile p := by
  induction cs with
  | nil => simp [h]
  | cons c cs ih => simp only [List.cons_append, List.takeWhile_cons, ih]

theorem dropWhile_line {p : Char → Bool} (h : p '\n' = false) (cs more : List Char) :
    (cs ++ '\n' :: more).dropWhile p = cs.dropWhile p ++ '\n' :: more := by
  induction cs with
  | nil => simp [h]
  | cons c cs ih =>
    simp only [List.cons_append, List.dropWhile_cons, ih]
    split <;> rfl

theorem fraction_line (cs more : List Char) : fraction (cs ++ '\n' :: more) = fraction cs := by
  cases cs with
  | nil => rfl
  | cons c cs =>
    by_cases hc : c = '.'
    · subst hc
      simp only [List.cons_append, fraction, takeWhile_line (p := Char.isDigit) rfl]
    · simp [fraction, hc]

theorem exponent_line (cs more : List Char) : exponent (cs ++ '\n' :: more) = exponent cs := by
  cases cs with
  | nil => rfl
  | cons e cs =>
    let isSign (c : Char) : Bool := c == '+' || c == '-'
    have hsign : ((cs ++ '\n' :: more).take 1).filter isSign = (cs.take 1).filter isSign := by
      cases cs <;> rfl
    have hlength : ((cs.take 1).filter isSign).length ≤ cs.length :=
      Nat.le_trans (List.length_filter_le _ _) (List.length_take_le' 1 cs)
    simp only [isSign] at hsign hlength
    simp only [List.cons_append, exponent, hsign, List.drop_append_of_le_length hlength,
      takeWhile_line (p := Char.isDigit) rfl]

theorem hexTail_line (cs more : List Char) : hexTail (cs ++ '\n' :: more) = hexTail cs := by
  cases cs with
  | nil => rfl
  | cons x cs => simp only [List.cons_append, hexTail, takeWhile_line (p := isHexDigit) rfl]

theorem number_line (c : Char) (cs more : List Char) :
    number c (cs ++ '\n' :: more) = number c cs := by
  have hstarts := fraction_prefix (cs.dropWhile Char.isDigit)
  have hfraction := hstarts.length_le
  unfold number
  simp only [hexTail_line, takeWhile_line (p := Char.isDigit) rfl,
    dropWhile_line (p := Char.isDigit) rfl, fraction_line, exponent_line,
    List.drop_append_of_le_length hfraction]

/-- A comment that is closed stays closed. -/
theorem commentBody_append (h : ['*', '/'] <:+: cs) (more : List Char) :
    commentBody (cs ++ more) = commentBody cs := by
  fun_induction commentBody cs with
  | case1 rest => rfl
  | case2 c cs hnot ih =>
    rcases List.infix_cons_iff.mp h with hstart | hinner
    · obtain ⟨t, ht⟩ := hstart
      obtain ⟨rfl, hcs⟩ := List.cons.inj ht
      exact absurd hcs.symm (hnot t rfl)
    · cases cs with
      | nil => simp at hinner
      | cons d cs =>
        rw [← ih hinner]
        have hgoes : ∀ t, c = '*' → d :: (cs ++ more) = '/' :: t → False := by
          rintro t hc ht
          obtain ⟨rfl, -⟩ := List.cons.inj ht
          exact hnot cs hc rfl
        exact commentBody.eq_2 c (d :: (cs ++ more)) hgoes
  | case3 => simp at h

theorem line_notMem_text (kind : TokenKind) : '\n' ∉ kind.text.toList := by
  cases kind <;> decide

theorem isPrefixOf_line {sign : List Char} (h : '\n' ∉ sign) (cs more : List Char) :
    sign.isPrefixOf (cs ++ '\n' :: more) = sign.isPrefixOf cs := by
  induction sign generalizing cs with
  | nil => simp
  | cons d sign ih =>
    obtain ⟨hd, hsign⟩ : '\n' ≠ d ∧ '\n' ∉ sign := by simpa using h
    cases cs with
    | nil => simp [List.isPrefixOf, hd.symm]
    | cons c cs => simp only [List.cons_append, List.isPrefixOf, ih hsign]

theorem sign?_line (cs more : List Char) : sign? (cs ++ '\n' :: more) = sign? cs := by
  unfold sign?
  simp only [isPrefixOf_line (line_notMem_text _)]

theorem head?_line {d : Char} (hd : d ≠ '\n') (cs more : List Char) :
    (cs ++ '\n' :: more).head? = some d ↔ cs.head? = some d := by
  cases cs with
  | nil => simp [hd.symm]
  | cons c cs => simp

/-- Whether a lexeme is a block comment without an end. -/
def isOpen : Lexeme → Bool
  | gap ('/' :: '*' :: body) => !(['*', '/'].isSuffixOf body)
  | _ => false

/-- A block comment that is closed has its end in the text. -/
theorem infix_of_closed (h : ['*', '/'].isSuffixOf (commentBody cs) = true) :
    ['*', '/'] <:+: cs := by
  have hsuffix := (List.isSuffixOf_iff_suffix.mp h).isInfix
  rcases commentBody_eq cs with ⟨text, rest, -, rfl, -⟩ | ⟨-, hbody⟩
  · exact ⟨text, rest, by simp⟩
  · rwa [hbody] at hsuffix

theorem first_quote (cs : List Char) :
    first '"' cs = if cs.contains '"' then token .string ('"' :: (cs.takeWhile (· ≠ '"') ++ ['"']))
      else token .illegal ['"'] := rfl

theorem first_comment (cs : List Char) :
    first '/' ('*' :: cs) = gap ('/' :: '*' :: commentBody cs) := rfl

/-- A string that is closed stays closed. -/
theorem first_quote_append (h : '"' ∈ cs) (more : List Char) :
    first '"' (cs ++ more) = first '"' cs := by
  obtain ⟨rest, hrest⟩ := closing_quote h
  have hmore : (cs ++ more).takeWhile (· ≠ '"') = cs.takeWhile (· ≠ '"') := by
    have hlength := congrArg List.length hrest
    rw [List.length_append, List.length_cons] at hlength
    rw [List.takeWhile_append, if_neg (by omega)]
  have hquote : cs.contains '"' = true := by simpa using h
  have hquote' : (cs ++ more).contains '"' = true := by simp [h]
  rw [first_quote, first_quote, if_pos hquote, if_pos hquote', hmore]

/-- A lexeme ends before a line feed behind the text, unless it is a string or a comment that is
not closed there. -/
theorem first_line (c : Char) (cs more : List Char) (hlegal : first c cs ≠ .token .illegal [c])
    (hclosed : (first c cs).isOpen = false) : first c (cs ++ '\n' :: more) = first c cs := by
  by_cases hquote : c = '"'
  · subst hquote
    refine first_quote_append (Classical.by_contradiction fun hnone => hlegal ?_) _
    rw [first_quote, if_neg (by simpa using hnone)]
  by_cases hcomment : c = '/' ∧ cs.head? = some '*'
  · obtain ⟨rfl, hstar⟩ := hcomment
    obtain ⟨rest, rfl⟩ := eq_cons_of_head? hstar
    rw [first_comment, isOpen, Bool.not_eq_false'] at hclosed
    rw [List.cons_append, first_comment, first_comment,
      commentBody_append (infix_of_closed hclosed)]
  · unfold first
    simp only [takeWhile_line (p := isBlank) rfl, takeWhile_line (p := isNameRest) rfl,
      takeWhile_line (p := (· ≠ '\n')) rfl, number_line, head?_line (d := '/') (by decide),
      head?_line (d := '*') (by decide), ← List.cons_append, sign?_line, if_neg hquote,
      if_neg hcomment]

end Lexeme

/-! ## Tokens before a line feed -/

/-- Whether a text ends inside a block comment. -/
def endsInComment : List Char → Bool
  | [] => false
  | c :: cs =>
    (Lexeme.first c cs).isOpen ||
      endsInComment (cs.drop ((Lexeme.first c cs).raw.length - 1))
termination_by cs => cs.length

/-- A text is cut into the same tokens where a line feed stands behind it. -/
theorem lexes_line (position : Position) (cs more : List Char)
    (hlegal : ∀ t ∈ (scanFrom position cs).1, t.kind ≠ .illegal)
    (hclosed : endsInComment cs = false) :
    Lexes cs ((scanFrom position cs).1.map Token.shape) ('\n' :: more) := by
  induction cs using endsInComment.induct generalizing position with
  | case1 =>
    rw [scanFrom]
    exact .nil
  | case2 c cs ih =>
    rw [endsInComment, Bool.or_eq_false_iff] at hclosed
    have hline := Lexeme.first_line c cs more
    obtain ⟨tail, hraw, behind, rfl⟩ := (Lexeme.starts_first c cs).raw_eq
    have hdrop : (tail ++ behind).drop ((c :: tail).length - 1) = behind := by simp
    rw [hraw, hdrop] at hclosed ih
    cases hfirst : Lexeme.first c (tail ++ behind) with
    | gap raw =>
      obtain rfl : raw = c :: tail := by simpa [hfirst, Lexeme.raw] using hraw
      rw [scanFrom_gap hfirst, hdrop] at hlegal ⊢
      have hgap := hline (by simp [hfirst]) hclosed.1
      rw [hfirst, List.append_assoc] at hgap
      exact (Lexes.gap hgap).append (ih _ hlegal hclosed.2)
    | token kind raw =>
      obtain rfl : raw = c :: tail := by simpa [hfirst, Lexeme.raw] using hraw
      rw [scanFrom_token hfirst, hdrop] at hlegal ⊢
      obtain ⟨hkind, hrest⟩ := List.forall_mem_cons.mp hlegal
      have hlegal' : Lexeme.first c (tail ++ behind) ≠ .token .illegal [c] := by
        rw [hfirst]
        rintro ⟨⟩
        exact hkind rfl
      have htoken := hline hlegal' hclosed.1
      rw [hfirst, List.append_assoc] at htoken
      exact (Lexes.token htoken rfl).append (ih _ hrest hclosed.2)

/-- Where a text stands does not change the shapes of its tokens. -/
theorem shapes_scanFrom (p q : Position) (cs : List Char) :
    (scanFrom p cs).1.map Token.shape = (scanFrom q cs).1.map Token.shape := by
  induction cs using endsInComment.induct generalizing p q with
  | case1 => simp only [scanFrom]
  | case2 c cs ih =>
    cases hfirst : Lexeme.first c cs with
    | gap raw =>
      rw [hfirst] at ih
      rw [scanFrom_gap hfirst, scanFrom_gap hfirst]
      exact ih _ _
    | token kind raw =>
      rw [hfirst] at ih
      rw [scanFrom_token hfirst, scanFrom_token hfirst]
      exact congrArg ((kind, Lexeme.literal kind raw) :: ·) (ih _ _)

theorem Lexeme.Starts.kind_ne_endOfText {c : Char} {cs raw : List Char} {kind : TokenKind}
    (h : Starts c cs (.token kind raw)) : kind ≠ .endOfText := by
  cases h with
  | number hc hkind htail hline => rcases hkind with rfl | rfl <;> decide
  | word hc => exact fun h => absurd (h ▸ ofWord_mem _) (by decide)
  | string => decide
  | sign hkind => exact fun h => absurd (h ▸ hkind) (by decide)
  | illegal hc => decide

/-- The end of the text is no token of the text. -/
theorem kind_ne_endOfText (position : Position) (cs : List Char) :
    ∀ t ∈ (scanFrom position cs).1, t.kind ≠ .endOfText := by
  induction cs using endsInComment.induct generalizing position with
  | case1 => simp [scanFrom]
  | case2 c cs ih =>
    have hstarts := Lexeme.starts_first c cs
    cases hfirst : Lexeme.first c cs with
    | gap raw =>
      rw [hfirst] at ih
      rw [scanFrom_gap hfirst]
      exact ih _
    | token kind raw =>
      rw [hfirst] at ih hstarts
      rw [scanFrom_token hfirst]
      exact List.forall_mem_cons.mpr ⟨hstarts.kind_ne_endOfText, ih _⟩

/-! ## Whole texts -/

theorem lexes_semicolon (rest : List Char) :
    Lexes ['\n', ';'] [TokenKind.semicolon.shape] rest :=
  Lexes.append (a := ['\n']) (b := [';']) (.gap rfl) (.token rfl rfl)

/-- The tokens of two texts with a line feed and a semicolon between them. -/
theorem tokenize_joined {a : String} (b : String)
    (hlegal : ∀ t ∈ tokenize a, t.kind ≠ .illegal) (hclosed : endsInComment a.toList = false) :
    ∃ before semicolon more, tokenize (a ++ "\n;" ++ b) = before ++ semicolon :: more ∧
      before.map Token.shape = (scanFrom .start a.toList).1.map Token.shape ∧
      semicolon.kind = .semicolon ∧ more.map Token.shape = (tokenize b).map Token.shape := by
  let source := a ++ "\n;" ++ b
  have htext : source.toList = a.toList ++ '\n' :: ';' :: b.toList := by simp [source]
  have hlegal' : ∀ t ∈ (scanFrom .start a.toList).1, t.kind ≠ .illegal := by
    rw [tokenize_eq] at hlegal
    exact fun t ht => hlegal t (List.mem_append_left _ ht)
  have hline := lexes_line .start a.toList (';' :: b.toList) hlegal' hclosed
  obtain ⟨before, hbefore, hscan⟩ := hline .start
  obtain ⟨between, hbetween, hscan'⟩ := lexes_semicolon b.toList (Position.start.advance a.toList)
  obtain ⟨semicolon, rfl, hsemicolon⟩ := List.map_eq_singleton_iff.mp hbetween
  let place := (Position.start.advance a.toList).advance ['\n', ';']
  let last : Token := ⟨.endOfText, "", (scanFrom .start source.toList).2⟩
  have hall : (scanFrom .start source.toList).1 =
      before ++ semicolon :: (scanFrom place b.toList).1 := by
    rw [htext, hscan]
    exact congrArg (before ++ ·) hscan'
  refine ⟨before, semicolon, (scanFrom place b.toList).1 ++ [last], ?_, hbefore,
    congrArg Prod.fst hsemicolon, ?_⟩
  · rw [tokenize_eq, hall, List.append_assoc, List.cons_append]
  · rw [tokenize_eq b, List.map_append, List.map_append, shapes_scanFrom place .start]
    rfl

end ScriptLang
