-- The patterns that a source text is cut by, each with the language of the texts that it matches.
-- No text is matched by two patterns: the first character tells most of them apart, a number is
-- told from another one by what stands behind its first digits.
import Mathlib.Computability.Language
import ScriptLang.Proofs.JoinedTexts

namespace ScriptLang

/-! ## Languages -/

/-- The texts of one character of a class. -/
def oneOf (p : Char → Bool) : Language Char := {w : List Char | ∃ c, p c = true ∧ w = [c]}

/-- The texts of characters of a class. -/
def zeroOrMore (p : Char → Bool) : Language Char := {w : List Char | ∀ c ∈ w, p c = true}

/-- The texts of characters of a class, of one at least. -/
def oneOrMore (p : Char → Bool) : Language Char :=
  {w : List Char | w ≠ [] ∧ ∀ c ∈ w, p c = true}

/-- One text and no other. -/
def exactly (text : List Char) : Language Char := {text}

variable {p : Char → Bool} {w text : List Char}

theorem mem_oneOf : w ∈ oneOf p ↔ ∃ c, p c = true ∧ w = [c] := Iff.rfl

theorem mem_zeroOrMore : w ∈ zeroOrMore p ↔ ∀ c ∈ w, p c = true := Iff.rfl

theorem mem_oneOrMore : w ∈ oneOrMore p ↔ w ≠ [] ∧ ∀ c ∈ w, p c = true := Iff.rfl

theorem mem_exactly : w ∈ exactly text ↔ w = text := Iff.rfl

/-- Decimal digits. -/
def digits : Language Char := oneOrMore Char.isDigit

/-- A dot and digits. -/
def fractionPart : Language Char := exactly ['.'] * digits

/-- The letter before an exponent. -/
def isExponentMark (c : Char) : Bool := c == 'e' || c == 'E'

/-- An `e`, perhaps a sign, and digits. -/
def exponentPart : Language Char :=
  oneOf isExponentMark * (1 + oneOf fun c => c == '+' || c == '-') * digits

/-- An `x` and hexadecimal digits. -/
def hexPart : Language Char := oneOf (fun c => c == 'x' || c == 'X') * oneOrMore isHexDigit

/-! ## Patterns -/

/-- What a source text is cut by. -/
inductive Pattern where
  | float
  | int
  /-- The quote that opens a string. -/
  | quote
  | name
  | sign (kind : TokenKind) (h : kind ∈ TokenKind.signs)
  /-- The opening of a comment to the end of the line. -/
  | lineComment
  /-- The opening of a comment between marks. -/
  | blockComment
  | lineFeed
  | blanks

namespace Pattern

/-- The texts that a pattern matches. -/
def language : Pattern → Language Char
  | float => digits * fractionPart * (1 + exponentPart) + digits * exponentPart
  | int => digits + exactly ['0'] * hexPart
  | quote => exactly ['"']
  | name => oneOf isNameStart * zeroOrMore isNameRest
  | sign kind _ => exactly kind.text.toList
  | lineComment => exactly ['/', '/']
  | blockComment => exactly ['/', '*']
  | lineFeed => exactly ['\n']
  | blanks => oneOrMore isBlank

/-- The kind of the token that a text is if the pattern matches it. A name that spells a keyword is
that keyword. A quote and the opening of a comment are no tokens by themselves. -/
def kind? (pattern : Pattern) (text : List Char) : Option TokenKind :=
  match pattern with
  | float => some .float
  | int => some .int
  | name => some (.ofWord (String.ofList text))
  | sign kind _ => some kind
  | quote | lineComment | blockComment | lineFeed | blanks => none

end Pattern

/-! ## First characters -/

/-- What the first character of a text tells of the pattern. -/
inductive CharClass where
  | lineFeed
  | blank
  | digit
  | letter
  | quote
  | other
  deriving DecidableEq

def CharClass.of (c : Char) : CharClass :=
  if c = '\n' then lineFeed
  else if isBlank c then blank
  else if c.isDigit then digit
  else if isNameStart c then letter
  else if c = '"' then quote
  else other

/-- The class that the texts of a pattern start with. -/
def Pattern.charClass : Pattern → CharClass
  | float | int => .digit
  | quote => .quote
  | name => .letter
  | sign _ _ | lineComment | blockComment => .other
  | lineFeed => .lineFeed
  | blanks => .blank

namespace CharClass

variable {c : Char}

theorem of_digit (h : c.isDigit = true) : of c = digit := by
  obtain ⟨hline, hblank⟩ := not_blank_of_class rfl rfl rfl rfl rfl h
  simp [of, hline, hblank, h]

theorem of_letter (h : isNameStart c = true) : of c = letter := by
  obtain ⟨hline, hblank⟩ := not_blank_of_class rfl rfl rfl rfl rfl h
  simp [of, hline, hblank, isDigit_of_isNameStart h, h]

theorem of_blank (h : isBlank c = true) : of c = blank := by
  have hline : c ≠ '\n' := by
    rintro rfl
    cases h
  simp [of, hline, h]

theorem of_sign : ∀ kind ∈ TokenKind.signs, kind.text.toList.head?.map of = some other := by
  decide

end CharClass

/-- What digits stand in front of starts with a digit. -/
theorem starts_of_mem_digits {l : Language Char} (h : w ∈ digits * l) :
    ∃ c cs, w = c :: cs ∧ CharClass.of c = .digit := by
  obtain ⟨a, ⟨hne, ha⟩, b, -, rfl⟩ := Language.mem_mul.mp h
  cases a with
  | nil => exact absurd rfl hne
  | cons c cs => exact ⟨c, cs ++ b, rfl, CharClass.of_digit (ha c (by simp))⟩

/-- The first character of a text shows the class of its pattern. -/
theorem Pattern.starts_of_mem {pattern : Pattern} (h : w ∈ pattern.language) :
    ∃ c cs, w = c :: cs ∧ CharClass.of c = pattern.charClass := by
  cases pattern with
  | float =>
    rcases h with h | h
    · rw [mul_assoc] at h
      exact starts_of_mem_digits h
    · exact starts_of_mem_digits h
  | int =>
    rcases h with h | h
    · exact starts_of_mem_digits (l := 1) (by rwa [mul_one])
    · obtain ⟨_, rfl, b, -, rfl⟩ := Language.mem_mul.mp h
      exact ⟨'0', b, rfl, rfl⟩
  | name =>
    obtain ⟨_, ⟨c, hc, rfl⟩, b, -, rfl⟩ := Language.mem_mul.mp h
    exact ⟨c, b, rfl, CharClass.of_letter hc⟩
  | sign kind hkind =>
    have hclass := CharClass.of_sign kind hkind
    rw [← mem_exactly.mp h] at hclass
    cases w with
    | nil => cases hclass
    | cons c cs => exact ⟨c, cs, rfl, Option.some.inj hclass⟩
  | blanks =>
    obtain ⟨hne, hblank⟩ := h
    cases w with
    | nil => exact absurd rfl hne
    | cons c cs => exact ⟨c, cs, rfl, CharClass.of_blank (hblank c (by simp))⟩
  | quote | lineComment | blockComment | lineFeed => exact ⟨_, _, mem_exactly.mp h, rfl⟩

/-! ## No text is matched twice -/

theorem mem_fractionPart : w ∈ fractionPart ↔ ∃ ds ∈ digits, w = '.' :: ds := by
  unfold fractionPart
  rw [Language.mem_mul]
  constructor
  · rintro ⟨_, rfl, ds, hds, rfl⟩
    exact ⟨ds, hds, rfl⟩
  · rintro ⟨ds, hds, rfl⟩
    exact ⟨['.'], rfl, ds, hds, rfl⟩

theorem mem_exponentPart : w ∈ exponentPart ↔ ∃ e sign ds, isExponentMark e = true ∧
    (sign = [] ∨ sign = ['+'] ∨ sign = ['-']) ∧ ds ∈ digits ∧ w = e :: (sign ++ ds) := by
  unfold exponentPart
  simp only [Language.mem_mul, Language.mem_add, Language.mem_one, mem_oneOf]
  constructor
  · rintro ⟨_, ⟨_, ⟨e, he, rfl⟩, sign, hsign, rfl⟩, ds, hds, rfl⟩
    refine ⟨e, sign, ds, he, ?_, hds, rfl⟩
    rcases hsign with hnil | ⟨c, hc, hsign⟩
    · exact .inl hnil
    · rcases Bool.or_eq_true_iff.mp hc with hplus | hminus
      · exact .inr (.inl (by rw [hsign, beq_iff_eq.mp hplus]))
      · exact .inr (.inr (by rw [hsign, beq_iff_eq.mp hminus]))
  · rintro ⟨e, sign, ds, he, hsign, hds, rfl⟩
    refine ⟨_, ⟨[e], ⟨e, he, rfl⟩, sign, ?_, rfl⟩, ds, hds, rfl⟩
    rcases hsign with rfl | rfl | rfl
    · exact .inl rfl
    · exact .inr ⟨'+', rfl, rfl⟩
    · exact .inr ⟨'-', rfl, rfl⟩

theorem mem_hexPart : w ∈ hexPart ↔ ∃ x hs, (x = 'x' ∨ x = 'X') ∧ hs ∈ oneOrMore isHexDigit ∧
    w = x :: hs := by
  unfold hexPart
  simp only [Language.mem_mul, mem_oneOf]
  constructor
  · rintro ⟨_, ⟨x, hx, rfl⟩, hs, hhs, rfl⟩
    exact ⟨x, hs, by simpa using hx, hhs, rfl⟩
  · rintro ⟨x, hs, hx, hhs, rfl⟩
    exact ⟨[x], ⟨x, by simpa using hx, rfl⟩, hs, hhs, rfl⟩

/-- What may go on behind the digits of a decimal number. -/
def isNumberMark (c : Char) : Bool := c == '.' || isExponentMark c

theorem isDigit_of_isNumberMark {c : Char} (h : isNumberMark c = true) : c.isDigit = false := by
  unfold isNumberMark isExponentMark at h
  simp only [Bool.or_eq_true, beq_iff_eq] at h
  rcases h with rfl | rfl | rfl <;> rfl

/-- A float has a dot or an `e` behind its first digits. -/
theorem mark_of_mem_float (h : w ∈ Pattern.float.language) :
    ∃ d ∈ digits, ∃ c cs, w = d ++ c :: cs ∧ isNumberMark c = true := by
  rcases h with h | h
  · rw [mul_assoc] at h
    obtain ⟨d, hd, b, hb, rfl⟩ := Language.mem_mul.mp h
    obtain ⟨f, hf, e, -, rfl⟩ := Language.mem_mul.mp hb
    obtain ⟨ds, -, rfl⟩ := mem_fractionPart.mp hf
    exact ⟨d, hd, '.', ds ++ e, rfl, rfl⟩
  · obtain ⟨d, hd, b, hb, rfl⟩ := Language.mem_mul.mp h
    obtain ⟨e, sign, ds, he, -, -, rfl⟩ := mem_exponentPart.mp hb
    exact ⟨d, hd, e, sign ++ ds, rfl, by simp [isNumberMark, he]⟩

theorem notMem_int_of_mem_float (h : w ∈ Pattern.float.language) :
    w ∉ Pattern.int.language := by
  obtain ⟨d, ⟨hne, hd⟩, c, cs, rfl, hc⟩ := mark_of_mem_float h
  have hdigit := isDigit_of_isNumberMark hc
  rintro (⟨-, hall⟩ | hhex)
  · have hmark := hall c (by simp)
    rw [hdigit] at hmark
    cases hmark
  · obtain ⟨_, rfl, b, hb, heq⟩ := Language.mem_mul.mp hhex
    obtain ⟨x, hs, hx, -, rfl⟩ := mem_hexPart.mp hb
    -- The digits are the zero alone, so the mark would be the `x`.
    match d, hne with
    | [_], _ =>
      obtain ⟨rfl, -⟩ := List.cons.inj (List.cons.inj heq).2
      rcases hx with rfl | rfl <;> cases hc
    | _ :: y :: _, _ =>
      obtain ⟨rfl, -⟩ := List.cons.inj (List.cons.inj heq).2
      have hy := hd x (by simp)
      rcases hx with rfl | rfl <;> cases hy

theorem sign_text_injective : ∀ a ∈ TokenKind.signs, ∀ b ∈ TokenKind.signs,
    a.text.toList = b.text.toList → a = b := by
  decide +kernel

theorem sign_text_ne_comment : ∀ kind ∈ TokenKind.signs,
    kind.text.toList ≠ ['/', '/'] ∧ kind.text.toList ≠ ['/', '*'] := by
  decide +kernel

/-- A text is matched by one pattern at most. -/
theorem Pattern.eq_of_mem {a b : Pattern} (ha : w ∈ a.language) (hb : w ∈ b.language) : a = b := by
  obtain ⟨c, cs, rfl, hclass⟩ := starts_of_mem ha
  obtain ⟨_, _, heq, hclass'⟩ := starts_of_mem hb
  obtain ⟨rfl, rfl⟩ := List.cons.inj heq
  rw [hclass] at hclass'
  cases a with
  | float =>
    cases b with
    | float => rfl
    | int => exact absurd hb (notMem_int_of_mem_float ha)
    | _ => cases hclass'
  | int =>
    cases b with
    | float => exact absurd ha (notMem_int_of_mem_float hb)
    | int => rfl
    | _ => cases hclass'
  | sign kind hkind =>
    cases b with
    | sign kind' hkind' =>
      obtain rfl := sign_text_injective kind hkind kind' hkind' (ha.symm.trans hb)
      rfl
    | lineComment => exact absurd (ha.symm.trans hb) (sign_text_ne_comment kind hkind).1
    | blockComment => exact absurd (ha.symm.trans hb) (sign_text_ne_comment kind hkind).2
    | _ => cases hclass'
  | lineComment =>
    cases b with
    | sign kind hkind => exact absurd (hb.symm.trans ha) (sign_text_ne_comment kind hkind).1
    | lineComment => rfl
    | blockComment => exact absurd (ha.symm.trans hb) (by decide)
    | _ => cases hclass'
  | blockComment =>
    cases b with
    | sign kind hkind => exact absurd (hb.symm.trans ha) (sign_text_ne_comment kind hkind).2
    | lineComment => exact absurd (ha.symm.trans hb) (by decide)
    | blockComment => rfl
    | _ => cases hclass'
  | quote => cases b <;> first | rfl | cases hclass'
  | name => cases b <;> first | rfl | cases hclass'
  | lineFeed => cases b <;> first | rfl | cases hclass'
  | blanks => cases b <;> first | rfl | cases hclass'

end ScriptLang
