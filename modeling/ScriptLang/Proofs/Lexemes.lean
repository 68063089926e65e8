-- The lexeme at the head of a text: what it can be, and what it covers.
import Mathlib
import ScriptLang.Token.Scan

namespace ScriptLang

namespace Lexeme

/-! ## Stretches of a text -/

theorem append_prefix {a b cs : List Char} (ha : a <+: cs) (hb : b <+: cs.drop a.length) :
    a ++ b <+: cs := by
  obtain ⟨t, rfl⟩ := ha
  rw [List.drop_left] at hb
  exact (List.prefix_append_right_inj a).mpr hb

theorem fraction_prefix (cs : List Char) : fraction cs <+: cs := by
  unfold fraction
  split
  · dsimp only
    split
    · exact List.nil_prefix
    · exact List.cons_prefix_cons.mpr ⟨rfl, List.takeWhile_prefix _⟩
  · exact List.nil_prefix

theorem exponent_prefix (cs : List Char) : exponent cs <+: cs := by
  unfold exponent
  split
  · rename_i e cs
    dsimp only
    split
    · split
      · exact List.nil_prefix
      · have hsign : (cs.take 1).filter (fun c => c == '+' || c == '-') <+: cs := by
          cases cs with
          | nil => simp
          | cons c cs => by_cases hc : (c == '+' || c == '-') = true <;> simp [hc]
        exact List.cons_prefix_cons.mpr ⟨rfl, append_prefix hsign (List.takeWhile_prefix _)⟩
    · exact List.nil_prefix
  · exact List.nil_prefix

theorem hexTail_prefix (cs : List Char) : hexTail cs <+: cs := by
  unfold hexTail
  split
  · dsimp only
    split
    · split
      · exact List.nil_prefix
      · exact List.cons_prefix_cons.mpr ⟨rfl, List.takeWhile_prefix _⟩
    · exact List.nil_prefix
  · exact List.nil_prefix

/-! ## Stretches inside a line -/

theorem lineFeed_not_mem_takeWhile {p : Char → Bool} (h : p '\n' = false) (cs : List Char) :
    '\n' ∉ cs.takeWhile p := by
  intro hmem
  rw [List.mem_takeWhile_imp hmem] at h
  cases h

theorem lineFeed_not_mem_fraction (cs : List Char) : '\n' ∉ fraction cs := by
  unfold fraction
  split
  · dsimp only
    split
    · simp
    · simpa using lineFeed_not_mem_takeWhile rfl _
  · simp

theorem lineFeed_not_mem_exponent (cs : List Char) : '\n' ∉ exponent cs := by
  unfold exponent
  split
  · rename_i e cs
    dsimp only
    split
    · rename_i he
      split
      · simp
      · have hdigits := lineFeed_not_mem_takeWhile (p := Char.isDigit) rfl
        have hsign : '\n' ∉ (cs.take 1).filter (fun c => c == '+' || c == '-') := by simp
        simp only [List.mem_cons, List.mem_append, not_or]
        exact ⟨by rcases he with rfl | rfl <;> decide, hsign, hdigits _⟩
    · simp
  · simp

theorem lineFeed_not_mem_hexTail (cs : List Char) : '\n' ∉ hexTail cs := by
  unfold hexTail
  split
  · dsimp only
    split
    · rename_i hx
      split
      · simp
      · have hdigits := lineFeed_not_mem_takeWhile (p := isHexDigit) rfl
        simp only [List.mem_cons, not_or]
        exact ⟨by rcases hx with rfl | rfl <;> decide, hdigits _⟩
    · simp
  · simp

/-- A number covers its first digit and a stretch of the line behind it. -/
theorem number_eq (c : Char) (cs : List Char) :
    ∃ kind tail, number c cs = .token kind (c :: tail) ∧ (kind = .int ∨ kind = .float) ∧
      tail <+: cs ∧ '\n' ∉ tail := by
  unfold number
  dsimp only
  by_cases hex : (if c = '0' then hexTail cs else []).isEmpty = true
  · have hrest : cs.dropWhile Char.isDigit = cs.drop (cs.takeWhile Char.isDigit).length := by
      calc cs.dropWhile Char.isDigit
          = (cs.takeWhile Char.isDigit ++ cs.dropWhile Char.isDigit).drop
              (cs.takeWhile Char.isDigit).length := List.drop_left.symm
        _ = cs.drop (cs.takeWhile Char.isDigit).length := by
          rw [List.takeWhile_append_dropWhile]
    have hfrac : fraction (cs.dropWhile Char.isDigit) <+:
        cs.drop (cs.takeWhile Char.isDigit).length := by
      rw [← hrest]
      exact fraction_prefix _
    have hwhole := append_prefix (List.takeWhile_prefix Char.isDigit) hfrac
    rw [if_pos hex]
    refine ⟨_, _, rfl, ?_, append_prefix hwhole ?_, ?_⟩
    · split
      · exact .inl rfl
      · exact .inr rfl
    · rw [List.length_append, ← List.drop_drop, ← hrest]
      exact exponent_prefix _
    · simp only [List.mem_append, not_or]
      exact ⟨⟨lineFeed_not_mem_takeWhile rfl cs, lineFeed_not_mem_fraction _⟩,
        lineFeed_not_mem_exponent _⟩
  · rw [if_neg hex]
    refine ⟨_, _, rfl, .inl rfl, ?_, ?_⟩
    · split
      · exact hexTail_prefix cs
      · exact List.nil_prefix
    · split
      · exact lineFeed_not_mem_hexTail cs
      · simp

/-- A block comment ends at its first `*/`, or with the source. -/
theorem commentBody_eq (cs : List Char) :
    (∃ text rest, ¬['*', '/'] <:+: text ∧ cs = text ++ '*' :: '/' :: rest ∧
      commentBody cs = text ++ ['*', '/']) ∨
    (¬['*', '/'] <:+: cs ∧ commentBody cs = cs) := by
  fun_induction commentBody cs with
  | case1 rest => exact .inl ⟨[], rest, by simp, rfl, rfl⟩
  | case2 c cs hnot ih =>
    -- No end of the comment starts at `c`, whatever part of `cs` is looked at.
    have hstart (text behind : List Char) (hcs : cs = text ++ behind) :
        ¬['*', '/'] <+: c :: text := by
      rintro ⟨t, ht⟩
      obtain ⟨rfl, htext⟩ := List.cons.inj ht
      exact hnot (t ++ behind) rfl (by rw [hcs, ← htext]; rfl)
    rcases ih with ⟨text, rest, htext, hcs, hbody⟩ | ⟨hcs, hbody⟩
    · refine .inl ⟨c :: text, rest, ?_, by rw [hcs]; rfl, by rw [hbody]; rfl⟩
      rw [List.infix_cons_iff]
      rintro (h | h)
      · exact hstart text _ hcs h
      · exact htext h
    · refine .inr ⟨?_, by rw [hbody]⟩
      rw [List.infix_cons_iff]
      rintro (h | h)
      · exact hstart cs [] (by simp) h
      · exact hcs h
  | case3 => exact .inr ⟨by simp, rfl⟩

/-- What the lexeme at the head of a text can be, and what it covers. -/
inductive Starts (c : Char) (cs : List Char) : Lexeme → Prop where
  | lineFeed (hc : c = '\n') : Starts c cs (.gap [c])
  | blanks (hc : isBlank c = true) : Starts c cs (.gap (c :: cs.takeWhile isBlank))
  | lineComment (hc : c = '/') (hcs : cs.head? = some '/') :
      Starts c cs (.gap (c :: cs.takeWhile (· ≠ '\n')))
  | blockComment (hc : c = '/') (hcs : cs.head? = some '*') :
      Starts c cs (.gap (c :: '*' :: commentBody (cs.drop 1)))
  | number {kind : TokenKind} {tail : List Char} (hc : c.isDigit = true)
      (hkind : kind = .int ∨ kind = .float) (htail : tail <+: cs) (hline : '\n' ∉ tail) :
      Starts c cs (.token kind (c :: tail))
  | word (hc : isNameStart c = true) :
      Starts c cs (.token (.ofWord (String.ofList (c :: cs.takeWhile isNameRest)))
        (c :: cs.takeWhile isNameRest))
  | string (hc : c = '"') (hcs : '"' ∈ cs) :
      Starts c cs (.token .string (c :: (cs.takeWhile (· ≠ '"') ++ ['"'])))
  | sign {kind : TokenKind} (hkind : kind ∈ TokenKind.signs)
      (htext : kind.text.toList <+: c :: cs) : Starts c cs (.token kind kind.text.toList)
  | illegal (hc : c ≠ '\n') : Starts c cs (.token .illegal [c])

theorem starts_first (c : Char) (cs : List Char) : Starts c cs (first c cs) := by
  unfold first
  split
  · exact .lineFeed ‹_›
  rename_i hline
  split
  · exact .blanks ‹_›
  split
  · obtain ⟨kind, tail, heq, hkind, htail, htailLine⟩ := number_eq c cs
    rw [heq]
    exact .number ‹_› hkind htail htailLine
  split
  · exact .word ‹_›
  split
  · split
    · rename_i hcs
      exact .string ‹_› (by simpa using hcs)
    · exact .illegal hline
  split
  · rename_i h
    exact .lineComment h.1 h.2
  split
  · rename_i h
    exact .blockComment h.1 h.2
  split
  · rename_i kind hsign
    have htext := List.find?_some hsign
    exact .sign (List.mem_of_find?_eq_some hsign) (List.isPrefixOf_iff_prefix.mp htext)
  · exact .illegal hline

/-- Text with a quote in it goes on, behind what stands before the first quote, with that
quote. -/
theorem closing_quote {cs : List Char} (h : '"' ∈ cs) :
    ∃ rest, cs = cs.takeWhile (· ≠ '"') ++ '"' :: rest := by
  induction cs with
  | nil => cases h
  | cons c cs ih =>
    by_cases hc : c = '"'
    · exact ⟨cs, by simp [hc]⟩
    · obtain ⟨rest, hrest⟩ := ih (by simpa [Ne.symm hc] using h)
      exact ⟨rest, by simpa [hc] using hrest⟩

theorem behind_takeWhile {p : Char → Bool} {cs ds : List Char} {d : Char}
    (h : cs.takeWhile p ++ d :: ds = cs) : p d = false := by
  induction cs with
  | nil => simp at h
  | cons c cs ih =>
    by_cases hc : p c = true
    · rw [List.takeWhile_cons_of_pos hc] at h
      exact ih (List.cons.inj h).2
    · rw [List.takeWhile_cons_of_neg hc] at h
      obtain ⟨rfl, -⟩ := List.cons.inj h
      simpa using hc

theorem eq_cons_of_head? {cs : List Char} {d : Char} (h : cs.head? = some d) :
    ∃ rest, cs = d :: rest := by
  cases cs with
  | nil => cases h
  | cons e rest =>
    cases h
    exact ⟨rest, rfl⟩

theorem text_ne_nil : ∀ kind ∈ TokenKind.signs, kind.text.toList ≠ [] := by
  decide

/-- A lexeme covers the first character and a stretch of the text behind it. -/
theorem Starts.raw_eq {c : Char} {cs : List Char} {lexeme : Lexeme} (h : Starts c cs lexeme) :
    ∃ tail, lexeme.raw = c :: tail ∧ tail <+: cs := by
  cases h with
  | lineFeed hc => exact ⟨[], rfl, List.nil_prefix⟩
  | blanks hc => exact ⟨_, rfl, List.takeWhile_prefix _⟩
  | lineComment hc hcs => exact ⟨_, rfl, List.takeWhile_prefix _⟩
  | blockComment hc hcs =>
    obtain ⟨rest, rfl⟩ := eq_cons_of_head? hcs
    refine ⟨_, rfl, List.cons_prefix_cons.mpr ⟨rfl, ?_⟩⟩
    rw [List.drop_one, List.tail_cons]
    rcases commentBody_eq rest with ⟨text, more, -, hrest, hbody⟩ | ⟨-, hbody⟩
    · rw [hbody, hrest]
      exact ⟨more, by simp⟩
    · exact ⟨[], by rw [hbody, List.append_nil]⟩
  | number _ _ htail _ => exact ⟨_, rfl, htail⟩
  | word hc => exact ⟨_, rfl, List.takeWhile_prefix _⟩
  | string hc hcs =>
    obtain ⟨rest, hrest⟩ := closing_quote hcs
    exact ⟨_, rfl, rest, by rw [List.append_assoc]; exact hrest.symm⟩
  | sign hkind htext =>
    rename_i kind
    have hne : kind.text.toList ≠ [] := text_ne_nil kind hkind
    obtain ⟨d, tail, htail⟩ := List.exists_cons_of_ne_nil hne
    rw [htail] at htext
    obtain ⟨rfl, hprefix⟩ := List.cons_prefix_cons.mp htext
    exact ⟨tail, htail, hprefix⟩
  | illegal _ => exact ⟨[], rfl, List.nil_prefix⟩

/-- A lexeme and what stands behind it make up the text. -/
theorem Starts.raw_append {c : Char} {cs : List Char} {lexeme : Lexeme} (h : Starts c cs lexeme) :
    lexeme.raw ++ cs.drop (lexeme.raw.length - 1) = c :: cs := by
  obtain ⟨tail, hraw, rest, rfl⟩ := h.raw_eq
  simp [hraw]

theorem lineFeed_not_mem_text : ∀ kind ∈ TokenKind.signs, '\n' ∉ kind.text.toList := by
  decide

/-- No token but a string goes over the end of a line. -/
theorem Starts.lineFeed_not_mem {c : Char} {cs raw : List Char} {kind : TokenKind}
    (h : Starts c cs (.token kind raw)) (hkind : kind ≠ .string) : '\n' ∉ raw := by
  cases h with
  | number hc _ _ hline =>
    have hne : '\n' ≠ c := by
      rintro rfl
      cases hc
    exact List.not_mem_cons_of_ne_of_not_mem hne hline
  | word hc =>
    have hne : '\n' ≠ c := by
      rintro rfl
      cases hc
    exact List.not_mem_cons_of_ne_of_not_mem hne (lineFeed_not_mem_takeWhile rfl cs)
  | string => exact absurd rfl hkind
  | sign hsign => exact lineFeed_not_mem_text kind hsign
  | illegal hc => simpa using Ne.symm hc

end Lexeme

end ScriptLang
