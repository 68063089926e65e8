-- Tokens written with spaces between them read back. In front of a space a pattern matches no more
-- than it does before it, so every token ends where it ended in the text that it was cut from.
import ScriptLang.Proofs.LongestMatch

namespace ScriptLang

open Lexeme

variable {c : Char} {cs w text raw behind rest input : List Char} {l m : Language Char}

/-! ## Languages without spaces -/

/-- No text of the language has a space in it. -/
def Spaceless (l : Language Char) : Prop := ∀ w ∈ l, ' ' ∉ w

theorem Spaceless.mul (hl : Spaceless l) (hm : Spaceless m) : Spaceless (l * m) := by
  intro w hw
  obtain ⟨a, ha, b, hb, rfl⟩ := Language.mem_mul.mp hw
  simp [hl a ha, hm b hb]

theorem Spaceless.add (hl : Spaceless l) (hm : Spaceless m) : Spaceless (l + m) := by
  rintro w (hw | hw)
  · exact hl w hw
  · exact hm w hw

theorem spaceless_one : Spaceless 1 := by
  rintro w rfl
  simp

theorem spaceless_exactly (h : ' ' ∉ text) : Spaceless (exactly text) := by
  rintro w rfl
  exact h

theorem spaceless_zeroOrMore {p : Char → Bool} (hp : p ' ' = false) :
    Spaceless (zeroOrMore p) := by
  intro w hw hmem
  rw [mem_zeroOrMore.mp hw ' ' hmem] at hp
  cases hp

theorem spaceless_oneOrMore {p : Char → Bool} (hp : p ' ' = false) : Spaceless (oneOrMore p) :=
  fun w hw => spaceless_zeroOrMore hp w (mem_oneOrMore.mp hw).2

theorem spaceless_oneOf {p : Char → Bool} (hp : p ' ' = false) : Spaceless (oneOf p) := by
  rintro w ⟨c, hc, rfl⟩ hmem
  rw [← List.mem_singleton.mp hmem, hp] at hc
  cases hc

theorem spaceless_sign : ∀ kind ∈ TokenKind.signs, ' ' ∉ kind.text.toList := by
  decide +kernel

/-- Only blanks have spaces in them. -/
theorem Pattern.spaceless {pattern : Pattern} (h : pattern ≠ .blanks) :
    Spaceless pattern.language := by
  have hdigits : Spaceless digits := spaceless_oneOrMore rfl
  have hfraction : Spaceless fractionPart := .mul (spaceless_exactly (by decide)) hdigits
  have hexponent : Spaceless exponentPart :=
    .mul (.mul (spaceless_oneOf rfl) (.add spaceless_one (spaceless_oneOf rfl))) hdigits
  cases pattern with
  | float =>
    exact .add (.mul (.mul hdigits hfraction) (.add spaceless_one hexponent))
      (.mul hdigits hexponent)
  | int =>
    exact .add hdigits (.mul (spaceless_exactly (by decide))
      (.mul (spaceless_oneOf rfl) (spaceless_oneOrMore rfl)))
  | name => exact .mul (spaceless_oneOf rfl) (spaceless_zeroOrMore rfl)
  | sign kind hkind => exact spaceless_exactly (spaceless_sign kind hkind)
  | blanks => exact absurd rfl h
  | quote | lineComment | blockComment | lineFeed => exact spaceless_exactly (by decide)

/-! ## In front of a space -/

/-- Text that starts with a space, if there is any. -/
def SpaceFirst (rest : List Char) : Prop := ∀ c cs, rest = c :: cs → c = ' '

theorem spaceFirst_nil : SpaceFirst [] := nofun

theorem spaceFirst_cons (cs : List Char) : SpaceFirst (' ' :: cs) := by
  rintro _ _ ⟨⟩
  rfl

/-- What has no space in it does not run over a space. -/
theorem prefix_of_spaceFirst (hrest : SpaceFirst rest) (hw : ' ' ∉ w) (hstart : w <+: raw ++ rest) :
    w <+: raw := by
  by_cases hlength : w.length ≤ raw.length
  · exact List.prefix_of_prefix_length_le hstart (List.prefix_append raw rest) hlength
  · cases rest with
    | nil => simpa using hstart
    | cons c cs =>
      obtain rfl := hrest c cs rfl
      have hspace : raw ++ [' '] <+: w := by
        refine List.prefix_of_prefix_length_le ⟨cs, by simp⟩ hstart ?_
        rw [List.length_append, List.length_singleton]
        omega
      exact absurd (hspace.subset (by simp)) hw

theorem Pattern.charClass_eq_blank {pattern : Pattern} :
    pattern.charClass = .blank ↔ pattern = .blanks := by
  cases pattern <;> simp [charClass]

/-- A longest match ends where it did if a space stands behind it. -/
theorem LongestMatch.before_space {pattern : Pattern}
    (h : LongestMatch pattern raw (raw ++ behind)) (hpattern : pattern ≠ .blanks)
    (hrest : SpaceFirst rest) : LongestMatch pattern raw (raw ++ rest) := by
  refine .of_longest h.fits (List.prefix_append raw rest) fun other w hw hstart => ?_
  have hother : other ≠ .blanks := by
    obtain ⟨c, cs, rfl, hclass⟩ := Pattern.starts_of_mem h.fits
    have hsame := (Pattern.class_of_starts hw hstart).1
    rw [hclass] at hsame
    intro hblanks
    rw [hblanks] at hsame
    exact hpattern (Pattern.charClass_eq_blank.mp hsame.symm)
  exact (prefix_of_spaceFirst hrest (Pattern.spaceless hother w hw) hstart).length_le

theorem Unmatched.not_blank (h : Unmatched (c :: cs)) : isBlank c = false := by
  rw [Bool.eq_false_iff]
  intro hc
  refine h .blanks [c] ⟨by simp, by simpa using hc⟩ ?_
  exact List.cons_prefix_cons.mpr ⟨rfl, List.nil_prefix⟩

/-- Where no pattern matches, none does if a space stands behind the first character. -/
theorem Unmatched.before_space (h : Unmatched (c :: behind)) (hrest : SpaceFirst rest) :
    Unmatched (c :: rest) := by
  intro other w hw hstart
  have hother : other ≠ .blanks := by
    rintro rfl
    obtain ⟨tail, rfl, -⟩ := (Pattern.class_of_starts hw hstart).2
    have hblank := hw.2 c (by simp)
    rw [h.not_blank] at hblank
    cases hblank
  have hstart' : w <+: [c] ++ rest := hstart
  have hshort := prefix_of_spaceFirst hrest (Pattern.spaceless hother w hw) hstart'
  exact h other w hw (hshort.trans (List.cons_prefix_cons.mpr ⟨rfl, List.nil_prefix⟩))

/-! ## Tokens in front of a space -/

namespace Lexeme.Reads

variable {lexeme : Lexeme} {kind : TokenKind}

/-- The longest match decides what is read. -/
theorem eq_token {pattern : Pattern} (h : Reads input lexeme)
    (hmatch : LongestMatch pattern text input) (hkind : pattern.kind? text = some kind) :
    lexeme = .token kind text := by
  have hquoted (more : List Char) (hinput : input = '"' :: more) : False := by
    rw [hinput] at hmatch
    rw [(hmatch.unique (longestMatch_quote more)).1] at hkind
    cases hkind
  cases h with
  | token hmatch' hkind' =>
    obtain ⟨rfl, rfl⟩ := hmatch.unique hmatch'
    rw [hkind] at hkind'
    rw [Option.some.inj hkind']
  | gap hmatch' hnone hquote more =>
    obtain ⟨rfl, rfl⟩ := hmatch.unique hmatch'
    rw [hkind] at hnone
    cases hnone
  | string hinside => exact (hquoted _ rfl).elim
  | unclosed hrest => exact (hquoted _ rfl).elim
  | unmatched hnone => exact absurd hmatch.starts (hnone pattern text hmatch.fits)

theorem eq_illegal (h : Reads (c :: cs) lexeme) (hnone : Unmatched (c :: cs)) :
    lexeme = .token .illegal [c] := by
  cases h with
  | token hmatch hkind => exact absurd hmatch.starts (hnone _ _ hmatch.fits)
  | gap hmatch hkind hquote more => exact absurd hmatch.starts (hnone _ _ hmatch.fits)
  | @string inside more hinside =>
    have hquote := longestMatch_quote (inside ++ '"' :: more)
    exact absurd hquote.starts (hnone _ _ hquote.fits)
  | unclosed | unmatched => rfl

/-- The text of a token starts with a character that is no blank. -/
theorem raw_head (h : Reads input (.token kind raw)) :
    raw <+: input ∧ ∃ c cs, raw = c :: cs ∧ isBlank c = false := by
  cases h with
  | token hmatch hkind =>
    refine ⟨hmatch.starts, ?_⟩
    obtain ⟨c, cs, rfl, hclass⟩ := Pattern.starts_of_mem hmatch.fits
    refine ⟨c, cs, rfl, ?_⟩
    rw [Bool.eq_false_iff]
    intro hblank
    rw [CharClass.of_blank hblank] at hclass
    rw [Pattern.charClass_eq_blank.mp hclass.symm] at hkind
    cases hkind
  | @string inside rest hinside => exact ⟨⟨rest, by simp⟩, '"', inside ++ ['"'], rfl, rfl⟩
  | unclosed hrest => exact ⟨List.cons_prefix_cons.mpr ⟨rfl, List.nil_prefix⟩, '"', [], rfl, rfl⟩
  | @unmatched c rest hnone =>
    exact ⟨List.cons_prefix_cons.mpr ⟨rfl, List.nil_prefix⟩, c, [], rfl, hnone.not_blank⟩

end Lexeme.Reads

/-- A token is read again where a space stands behind it, and a lone quote if there is no quote
behind it either. -/
theorem lexes_before_space {kind : TokenKind} (h : Reads (raw ++ behind) (.token kind raw))
    (hrest : SpaceFirst rest) (hquote : '"' ∉ behind → '"' ∉ rest) :
    Lexes raw [(kind, Lexeme.literal kind raw)] rest := by
  generalize hinput : raw ++ behind = input at h
  cases h with
  | token hmatch hkind =>
    rename_i pattern
    subst hinput
    have hpattern : pattern ≠ .blanks := by
      rintro rfl
      cases hkind
    have hmatch' := hmatch.before_space hpattern hrest
    obtain ⟨c, cs, rfl, -⟩ := Pattern.starts_of_mem hmatch.fits
    exact .token ((reads_first c (cs ++ rest)).eq_token hmatch' hkind) rfl
  | @string inside more hinside =>
    have hvalue : '"' ∉ (String.ofList inside).toList := by simpa using hinside
    have hlex := lexes_string hvalue rest
    simpa [quoted, Lexeme.literal] using hlex
  | @unclosed more hmore =>
    obtain ⟨-, rfl⟩ := List.cons.inj hinput
    refine .token ?_ rfl
    have hnone : ('"' ∈ rest) = False := eq_false (hquote hmore)
    simp [first_quote, hnone]
  | @unmatched c more hnone =>
    obtain ⟨-, rfl⟩ := List.cons.inj hinput
    exact .token ((reads_first c rest).eq_illegal (hnone.before_space hrest)) rfl

/-! ## Texts of tokens with spaces between them -/

/-- The texts of tokens with a space between every two. -/
def spacedOut (tokens : List Token) : List Char := [' '].intercalate (tokens.map Token.raw)

/-- The tokens as a source text. -/
def respaced (tokens : List Token) : String :=
  " ".intercalate (tokens.map fun token => String.ofList token.raw)

theorem toList_respaced (tokens : List Token) : (respaced tokens).toList = spacedOut tokens := by
  simp [respaced, spacedOut, String.toList_intercalate, Function.comp_def]

@[simp] theorem spacedOut_singleton (token : Token) : spacedOut [token] = token.raw := by
  simp [spacedOut]

theorem spacedOut_cons_cons (token next : Token) (tokens : List Token) :
    spacedOut (token :: next :: tokens) = token.raw ++ ' ' :: spacedOut (next :: tokens) := by
  simp [spacedOut]

theorem mem_spacedOut {tokens : List Token} (h : c ∈ spacedOut tokens) (hc : c ≠ ' ') :
    ∃ token ∈ tokens, c ∈ token.raw := by
  induction tokens with
  | nil => cases h
  | cons token tokens ih =>
    cases tokens with
    | nil => exact ⟨token, by simp, by simpa using h⟩
    | cons next tokens =>
      rw [spacedOut_cons_cons, List.mem_append, List.mem_cons] at h
      rcases h with hmem | hspace | hmem
      · exact ⟨token, by simp, hmem⟩
      · exact absurd hspace hc
      · obtain ⟨other, hother, hraw⟩ := ih hmem
        exact ⟨other, List.mem_cons_of_mem _ hother, hraw⟩

theorem Token.literal_raw (token : Token) :
    Lexeme.literal token.kind token.raw = token.literal := by
  unfold Token.raw Lexeme.literal
  by_cases h : token.kind = .string <;> simp [h]

namespace Scans

variable {position finish : Position} {token : Token} {tokens : List Token}

/-- What stands in a token stands in the text it was cut from. -/
theorem mem_of_mem_raw (h : Scans position cs tokens finish) (htoken : token ∈ tokens)
    (hc : c ∈ token.raw) : c ∈ cs := by
  obtain ⟨before, input, rfl, -, hread⟩ := h.reads token htoken
  exact List.mem_append_right before (hread.raw_head.1.subset hc)

/-- No blank stands at the head of tokens with spaces between them. -/
theorem head_spacedOut (h : Scans position cs (token :: tokens) finish) (rest : List Char) :
    ∃ c more, spacedOut (token :: tokens) ++ rest = c :: more ∧ isBlank c = false := by
  obtain ⟨before, input, -, -, hread⟩ := h.reads token (by simp)
  obtain ⟨-, c, tail, hraw, hblank⟩ := hread.raw_head
  cases tokens with
  | nil => exact ⟨c, tail ++ rest, by simp [hraw], hblank⟩
  | cons next tokens =>
    refine ⟨c, tail ++ ' ' :: spacedOut (next :: tokens) ++ rest, ?_, hblank⟩
    rw [spacedOut_cons_cons, hraw]
    rfl

/-- Tokens bring no quote if there is none in their text. -/
theorem quote_notMem (h : Scans position cs tokens finish) (hcs : '"' ∉ cs) (hrest : '"' ∉ rest) :
    '"' ∉ ' ' :: (spacedOut tokens ++ rest) := by
  intro hmem
  rw [List.mem_cons, List.mem_append] at hmem
  rcases hmem with hspace | hmem | hmem
  · cases hspace
  · obtain ⟨token, htoken, hraw⟩ := mem_spacedOut hmem (by decide)
    exact hcs (h.mem_of_mem_raw htoken hraw)
  · exact hrest hmem

/-- The tokens of a text are read again from their texts with spaces between them. The induction is
on the lexemes of the text: a gap leaves nothing, and behind a token stands a space or the end. -/
theorem lexes_spacedOut (h : Scans position cs tokens finish) (hrest : SpaceFirst rest)
    (hquote : '"' ∉ rest) : Lexes (spacedOut tokens) (tokens.map Token.shape) rest := by
  induction h with
  | nil => exact .nil
  | gap _ _ ih => exact ih
  | @token token _ behind tokens hread hscans ih =>
    have hshape : (token.kind, Lexeme.literal token.kind token.raw) = token.shape := by
      rw [token.literal_raw]
      rfl
    cases tokens with
    | nil =>
      have htoken := lexes_before_space hread hrest fun _ => hquote
      rw [hshape] at htoken
      rwa [spacedOut_singleton]
    | cons next tokens =>
      have htoken := lexes_before_space hread (spaceFirst_cons (spacedOut (next :: tokens) ++ rest))
        fun hbehind => hscans.quote_notMem hbehind hquote
      rw [hshape] at htoken
      obtain ⟨d, more, hhead, hblank⟩ := hscans.head_spacedOut rest
      have hspace := lexes_blank hblank more
      rw [← hhead] at hspace
      rw [spacedOut_cons_cons]
      exact htoken.append (hspace.append ih)

end Scans

/-! ## Whole sources -/

theorem shapes_tokenize (source : String) :
    (tokenize source).map Token.shape =
      (scanFrom .start source.toList).1.map Token.shape ++ [(.endOfText, "")] := by
  rw [tokenize_eq, List.map_append]
  rfl

theorem Lexes.shapes_tokenize {source : String} {shapes : List Shape}
    (h : Lexes source.toList shapes []) :
    (tokenize source).map Token.shape = shapes ++ [(.endOfText, "")] := by
  obtain ⟨tokens, hshapes, hscan⟩ := h .start
  rw [List.append_nil, scanFrom, List.append_nil] at hscan
  rw [ScriptLang.shapes_tokenize, hscan, hshapes]

/-- A token without a text leaves a space behind the last one. -/
theorem spacedOut_snoc {token last : Token} {tokens : List Token} (h : last.raw = []) :
    spacedOut (token :: tokens ++ [last]) = spacedOut (token :: tokens) ++ [' '] := by
  induction tokens generalizing token with
  | nil =>
    rw [List.cons_append, List.nil_append, spacedOut_cons_cons]
    simp [h]
  | cons next tokens ih =>
    rw [List.cons_append, List.cons_append, spacedOut_cons_cons, spacedOut_cons_cons,
      ← List.cons_append, ih]
    simp

/-- With the empty text of the end, a space stands behind the last token. -/
theorem lexes_spacedOut_finish (source : String) :
    Lexes (spacedOut (tokenize source)) ((scanFrom .start source.toList).1.map Token.shape) [] := by
  have hfinish (place : Position) : Token.raw ⟨.endOfText, "", place⟩ = [] := rfl
  have hscans := scans_scanFrom .start source.toList
  have htokens := hscans.lexes_spacedOut (spaceFirst_cons []) (by decide)
  rw [tokenize_eq]
  cases hscan : (scanFrom .start source.toList).1 with
  | nil =>
    rw [List.nil_append, spacedOut_singleton, hfinish]
    exact .nil
  | cons token tokens =>
    have hspace : Lexes [' '] [] [] := .gap rfl
    rw [hscan] at htokens
    rw [spacedOut_snoc (hfinish _)]
    simpa using htokens.append hspace

/-- The texts of the tokens of a source, with a space between every two, are read as the same
tokens, whether the empty text of the end is written with them or not. -/
theorem tokenize_respaced (source : String) :
    (tokenize (respaced (tokenize source))).map Token.shape = (tokenize source).map Token.shape ∧
      (tokenize (respaced (tokenize source).dropLast)).map Token.shape =
        (tokenize source).map Token.shape := by
  rw [shapes_tokenize source]
  refine ⟨Lexes.shapes_tokenize ?_, Lexes.shapes_tokenize ?_⟩
  · rw [toList_respaced]
    exact lexes_spacedOut_finish source
  · rw [toList_respaced, tokenize_eq, List.dropLast_concat]
    exact (scans_scanFrom .start source.toList).lexes_spacedOut spaceFirst_nil (by simp)

example : respaced (tokenize "-1.5e//\n&\"").dropLast = "- 1.5 e & \"" := by
  decide +kernel

end ScriptLang
