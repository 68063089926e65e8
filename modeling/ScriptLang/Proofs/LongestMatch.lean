-- A source text is cut at the longest match. At the place of every token no pattern matches more of
-- the text than the token covers, and the pattern that matches the token is the only one that does.
import ScriptLang.Proofs.Patterns

namespace ScriptLang

variable {p : Char → Bool} {c : Char} {cs w text more input : List Char} {l m : Language Char}

/-! ## The longest text of a language -/

/-- The longest text of a language that a text starts with. -/
structure IsLongest (l : Language Char) (text input : List Char) : Prop where
  fits : text ∈ l
  starts : text <+: input
  longest : ∀ w ∈ l, w <+: input → w.length ≤ text.length

theorem prefix_takeWhile (hw : w <+: cs) (hp : ∀ c ∈ w, p c = true) : w <+: cs.takeWhile p := by
  obtain ⟨rest, rfl⟩ := hw
  rw [List.takeWhile_append_of_pos hp]
  exact List.prefix_append w _

theorem isLongest_digits (hc : c.isDigit = true) :
    IsLongest digits (c :: cs.takeWhile Char.isDigit) (c :: cs) := by
  have hrun : (c :: cs).takeWhile Char.isDigit = c :: cs.takeWhile Char.isDigit :=
    List.takeWhile_cons_of_pos hc
  refine ⟨⟨by simp, ?_⟩, List.cons_prefix_cons.mpr ⟨rfl, List.takeWhile_prefix _⟩, ?_⟩
  · rw [← hrun]
    exact fun d hd => List.mem_takeWhile_imp hd
  · rintro w ⟨-, hw⟩ hstart
    rw [← hrun]
    exact (prefix_takeWhile hstart hw).length_le

/-- The longest texts of two languages one behind the other. The first one is not cut short, since
no text of the second language starts with a character of it. -/
theorem IsLongest.mul (h : IsLongest l text input)
    (hm : IsLongest m more (input.drop text.length)) (hstop : ∀ d ∈ text, ∀ w, d :: w ∉ m) :
    IsLongest (l * m) (text ++ more) input := by
  refine ⟨Language.append_mem_mul h.fits hm.fits, Lexeme.append_prefix h.starts hm.starts, ?_⟩
  intro w hw hstart
  obtain ⟨a, ha, b, hb, rfl⟩ := Language.mem_mul.mp hw
  have hastart : a <+: input := (List.prefix_append a b).trans hstart
  have hle : a.length ≤ text.length := h.longest a ha hastart
  by_cases hlength : a.length = text.length
  · obtain rfl : a = text :=
      (List.prefix_of_prefix_length_le hastart h.starts hle).eq_of_length hlength
    have hbstart : b <+: input.drop a.length := by
      obtain ⟨rest, rfl⟩ := hstart
      simp
    have hble := hm.longest b hb hbstart
    simp only [List.length_append]
    omega
  · cases b with
    | nil => simp only [List.append_nil, List.length_append]; omega
    | cons d b =>
      have hd : a ++ [d] <+: input := List.IsPrefix.trans ⟨b, by simp⟩ hstart
      have hshort : (a ++ [d]).length ≤ text.length := by
        rw [List.length_append, List.length_singleton]
        omega
      have hmem : d ∈ text := (List.prefix_of_prefix_length_le hd h.starts hshort).subset (by simp)
      exact absurd hb (hstop d hmem b)

/-- The longest text of a language, or nothing where there is none. -/
theorem isLongest_optional (hfits : text = [] ∨ text ∈ l) (hstarts : text <+: input)
    (hlongest : ∀ w ∈ l, w <+: input → w <+: text) : IsLongest (1 + l) text input := by
  refine ⟨hfits, hstarts, ?_⟩
  rintro w (rfl | hw) hstart
  · exact Nat.zero_le _
  · exact (hlongest w hw hstart).length_le

/-! ## Numbers -/

namespace Lexeme

/-- The sign that a text starts with, if it does. -/
theorem sign_cases (cs : List Char) :
    let sign := (cs.take 1).filter (fun c => c == '+' || c == '-')
    sign = [] ∨ sign = ['+'] ∨ sign = ['-'] := by
  cases cs with
  | nil => exact .inl rfl
  | cons c cs =>
    by_cases hplus : c = '+'
    · exact .inr (.inl (by simp [hplus]))
    · by_cases hminus : c = '-'
      · exact .inr (.inr (by simp [hminus]))
      · exact .inl (by simp [hplus, hminus])

theorem sign_of_digits {sign ds : List Char} (rest : List Char)
    (hsign : sign = [] ∨ sign = ['+'] ∨ sign = ['-']) (hds : ds ∈ digits) :
    ((sign ++ (ds ++ rest)).take 1).filter (fun c => c == '+' || c == '-') = sign := by
  rcases hsign with rfl | rfl | rfl
  · obtain ⟨hne, hall⟩ := hds
    obtain ⟨d, ds, rfl⟩ := List.exists_cons_of_ne_nil hne
    have hd : d.isDigit = true := hall d (by simp)
    have hno : (d == '+' || d == '-') = false := by
      rw [Bool.eq_false_iff]
      intro h
      simp only [Bool.or_eq_true, beq_iff_eq] at h
      rcases h with rfl | rfl <;> cases hd
    simp [hno]
  · rfl
  · rfl

/-- What starts with characters of a class starts with a run of them. -/
theorem prefix_run (hw : w ∈ oneOrMore p) (rest : List Char) :
    w <+: (w ++ rest).takeWhile p ∧ ((w ++ rest).takeWhile p).isEmpty = false := by
  have hrun : w <+: (w ++ rest).takeWhile p := prefix_takeWhile (List.prefix_append w rest) hw.2
  refine ⟨hrun, ?_⟩
  rw [List.isEmpty_eq_false_iff]
  intro hnil
  rw [hnil] at hrun
  exact hw.1 (List.prefix_nil.mp hrun)

theorem run_mem (hne : (cs.takeWhile p).isEmpty ≠ true) : cs.takeWhile p ∈ oneOrMore p := by
  refine ⟨by simpa using hne, fun d hd => ?_⟩
  exact List.mem_takeWhile_imp hd

theorem isLongest_fraction (cs : List Char) :
    IsLongest (1 + fractionPart) (fraction cs) cs := by
  have hstarts := fraction_prefix cs
  apply isLongest_optional _ hstarts
  · intro w hw hstart
    obtain ⟨ds, hds, rfl⟩ := mem_fractionPart.mp hw
    obtain ⟨rest, rfl⟩ := hstart
    obtain ⟨hrun, hsome⟩ := prefix_run hds rest
    simp only [List.cons_append, fraction, hsome]
    exact List.cons_prefix_cons.mpr ⟨rfl, hrun⟩
  · unfold fraction
    split
    · dsimp only
      split
      · exact .inl rfl
      · exact .inr (mem_fractionPart.mpr ⟨_, run_mem ‹_›, rfl⟩)
    · exact .inl rfl

theorem isLongest_exponent (cs : List Char) :
    IsLongest (1 + exponentPart) (exponent cs) cs := by
  have hstarts := exponent_prefix cs
  apply isLongest_optional _ hstarts
  · intro w hw hstart
    obtain ⟨e, sign, ds, he, hsign, hds, rfl⟩ := mem_exponentPart.mp hw
    obtain ⟨rest, rfl⟩ := hstart
    obtain ⟨hrun, hsome⟩ := prefix_run hds rest
    have hmark : e = 'e' ∨ e = 'E' := by simpa [isExponentMark] using he
    simp only [List.cons_append, List.append_assoc, exponent, if_pos hmark,
      sign_of_digits rest hsign hds, List.drop_left, hsome]
    exact List.cons_prefix_cons.mpr ⟨rfl, (List.prefix_append_right_inj sign).mpr hrun⟩
  · unfold exponent
    split
    · rename_i e cs
      dsimp only
      split
      · rename_i he
        split
        · exact .inl rfl
        · refine .inr (mem_exponentPart.mpr ⟨e, _, _, ?_, sign_cases cs,
            run_mem ‹_›, rfl⟩)
          simpa [isExponentMark] using he
      · exact .inl rfl
    · exact .inl rfl

theorem isLongest_hexTail (cs : List Char) : IsLongest (1 + hexPart) (hexTail cs) cs := by
  have hstarts := hexTail_prefix cs
  apply isLongest_optional _ hstarts
  · intro w hw hstart
    obtain ⟨x, hs, hx, hhs, rfl⟩ := mem_hexPart.mp hw
    obtain ⟨rest, rfl⟩ := hstart
    obtain ⟨hrun, hsome⟩ := prefix_run hhs rest
    simp only [List.cons_append, hexTail, if_pos hx, hsome]
    exact List.cons_prefix_cons.mpr ⟨rfl, hrun⟩
  · unfold hexTail
    split
    · dsimp only
      split
      · rename_i hx
        split
        · exact .inl rfl
        · exact .inr (mem_hexPart.mpr ⟨_, _, hx, run_mem ‹_›, rfl⟩)
      · exact .inl rfl
    · exact .inl rfl

/-- Digits, perhaps a fraction and perhaps an exponent. -/
def decimal : Language Char := digits * ((1 + fractionPart) * (1 + exponentPart))

theorem decimal_eq : decimal = digits + Pattern.float.language := by
  unfold decimal Pattern.language
  simp only [mul_add, add_mul, mul_one, one_mul, ← mul_assoc]
  ac_rfl

theorem dropWhile_eq_drop (p : Char → Bool) (cs : List Char) :
    cs.drop (cs.takeWhile p).length = cs.dropWhile p := by
  calc cs.drop (cs.takeWhile p).length
      = (cs.takeWhile p ++ cs.dropWhile p).drop (cs.takeWhile p).length := by
        rw [List.takeWhile_append_dropWhile]
    _ = cs.dropWhile p := List.drop_left

/-- The text of a decimal number: its digits, its fraction and its exponent. -/
def decimalText (c : Char) (cs : List Char) : List Char :=
  let rest := cs.dropWhile Char.isDigit
  c :: cs.takeWhile Char.isDigit ++ (fraction rest ++ exponent (rest.drop (fraction rest).length))

theorem isNumberMark_of_starts {d : Char}
    (h : d :: w ∈ (1 + fractionPart) * (1 + exponentPart)) : isNumberMark d = true := by
  obtain ⟨a, ha, b, hb, heq⟩ := Language.mem_mul.mp h
  rcases ha with rfl | ha
  · rcases hb with rfl | hb
    · cases heq
    · obtain ⟨e, sign, ds, he, -, -, rfl⟩ := mem_exponentPart.mp hb
      obtain ⟨rfl, -⟩ := List.cons.inj heq
      simp [isNumberMark, he]
  · obtain ⟨ds, -, rfl⟩ := mem_fractionPart.mp ha
    obtain ⟨rfl, -⟩ := List.cons.inj heq
    rfl

theorem isLongest_decimal (hc : c.isDigit = true) :
    IsLongest decimal (decimalText c cs) (c :: cs) := by
  have hdigits : IsLongest digits (c :: cs.takeWhile Char.isDigit) (c :: cs) := isLongest_digits hc
  have hrest : (c :: cs).drop (c :: cs.takeWhile Char.isDigit).length =
      cs.dropWhile Char.isDigit := dropWhile_eq_drop Char.isDigit cs
  refine hdigits.mul ?_ fun d hd w hw => ?_
  · rw [hrest]
    refine (isLongest_fraction _).mul (isLongest_exponent _) fun d hd w hw => ?_
    have hmark : isExponentMark d = true := by
      rcases hw with hnil | hw
      · cases hnil
      · obtain ⟨e, sign, ds, he, -, -, heq⟩ := mem_exponentPart.mp hw
        obtain ⟨rfl, -⟩ := List.cons.inj heq
        exact he
    -- A fraction has only a dot and digits in it, and no exponent starts with one of them.
    rcases (isLongest_fraction (cs.dropWhile Char.isDigit)).fits with hnil | hfraction
    · rw [hnil] at hd
      cases hd
    · obtain ⟨ds, hds, heq⟩ := mem_fractionPart.mp hfraction
      rw [heq] at hd
      rcases List.mem_cons.mp hd with rfl | hmem
      · cases hmark
      · have hdigit : d.isDigit = true := hds.2 d hmem
        rw [isDigit_of_isNumberMark (by simp [isNumberMark, hmark])] at hdigit
        cases hdigit
  · have hdigit : d.isDigit = true := hdigits.fits.2 d hd
    rw [isDigit_of_isNumberMark (isNumberMark_of_starts hw)] at hdigit
    cases hdigit

end Lexeme

/-! ## The longest match of the patterns -/

/-- The pattern and the text of the longest match at the head of a text: the pattern matches the
text, no pattern matches more, and no other pattern matches as much. -/
structure LongestMatch (pattern : Pattern) (text input : List Char) : Prop where
  fits : text ∈ pattern.language
  starts : text <+: input
  longest : ∀ other : Pattern, ∀ w ∈ other.language, w <+: input → w.length ≤ text.length
  only : ∀ other : Pattern, text ∈ other.language → other = pattern

/-- No pattern matches the head of a text. -/
def Unmatched (input : List Char) : Prop :=
  ∀ pattern : Pattern, ∀ w ∈ pattern.language, ¬w <+: input

namespace LongestMatch

variable {a b : Pattern} {text' : List Char}

theorem of_longest (fits : text ∈ a.language) (starts : text <+: input)
    (longest : ∀ other : Pattern, ∀ w ∈ other.language, w <+: input → w.length ≤ text.length) :
    LongestMatch a text input :=
  ⟨fits, starts, longest, fun _ hother => Pattern.eq_of_mem hother fits⟩

/-- There is one longest match at most. -/
theorem unique (h : LongestMatch a text input) (h' : LongestMatch b text' input) :
    a = b ∧ text = text' := by
  have hle : text.length ≤ text'.length := h'.longest a text h.fits h.starts
  have hge : text'.length ≤ text.length := h.longest b text' h'.fits h'.starts
  obtain rfl : text = text' :=
    (List.prefix_of_prefix_length_le h.starts h'.starts hle).eq_of_length (Nat.le_antisymm hle hge)
  exact ⟨h'.only a h.fits, rfl⟩

end LongestMatch

/-- A pattern that matches at the head of a text has the class of its first character. -/
theorem Pattern.class_of_starts {pattern : Pattern} (hw : w ∈ pattern.language)
    (hstart : w <+: c :: cs) :
    pattern.charClass = CharClass.of c ∧ ∃ tail, w = c :: tail ∧ tail <+: cs := by
  obtain ⟨d, tail, rfl, hclass⟩ := starts_of_mem hw
  obtain ⟨rfl, htail⟩ := List.cons_prefix_cons.mp hstart
  exact ⟨hclass.symm, tail, rfl, htail⟩

namespace Lexeme

theorem length_le_decimal (hc : c.isDigit = true) (hw : w ∈ digits ∨ w ∈ Pattern.float.language)
    (hstart : w <+: c :: cs) : w.length ≤ (decimalText c cs).length := by
  refine (isLongest_decimal hc).longest w ?_ hstart
  rw [decimal_eq]
  exact hw

/-- Digits before an `x` are a decimal number by themselves. -/
theorem decimalText_of_hexTail {x : Char} (hx : x = 'x' ∨ x = 'X') (c : Char) :
    decimalText c (x :: cs) = [c] := by
  rcases hx with rfl | rfl <;> rfl

theorem number_of_hexTail (h : (if c = '0' then hexTail cs else []).isEmpty = false) :
    c = '0' ∧ hexTail cs ∈ hexPart ∧ number c cs = .token .int (c :: hexTail cs) := by
  by_cases hzero : c = '0'
  · rw [if_pos hzero] at h
    refine ⟨hzero, ?_, ?_⟩
    · rcases (isLongest_hexTail cs).fits with hnil | hhex
      · rw [hnil] at h
        cases h
      · exact hhex
    · unfold number
      simp [hzero, h]
  · rw [if_neg hzero] at h
    cases h

/-- A number without hexadecimal digits is its decimal text, which is a float if it has a fraction
or an exponent. -/
theorem number_of_decimal (hc : c.isDigit = true)
    (h : (if c = '0' then hexTail cs else []).isEmpty = true) :
    ∃ pattern kind, number c cs = .token kind (decimalText c cs) ∧
      decimalText c cs ∈ Pattern.language pattern ∧
      pattern.kind? (decimalText c cs) = some kind := by
  let rest := cs.dropWhile Char.isDigit
  let expo := exponent (rest.drop (fraction rest).length)
  have hnumber : number c cs = .token (if (fraction rest).isEmpty && expo.isEmpty then .int
      else .float) (decimalText c cs) := by
    unfold number decimalText
    simp [h, rest, expo]
  have hdigits : c :: cs.takeWhile Char.isDigit ∈ digits := (isLongest_digits hc).fits
  have hexpo : expo ∈ 1 + exponentPart := (isLongest_exponent _).fits
  have htext : decimalText c cs = (c :: cs.takeWhile Char.isDigit) ++ (fraction rest ++ expo) := rfl
  rw [hnumber, htext]
  rcases (isLongest_fraction rest).fits with hnone | hfraction
  · have hnone : fraction rest = [] := hnone
    rw [hnone, List.nil_append]
    rcases hexpo with hnone' | hexponent
    · have hnone' : expo = [] := hnone'
      rw [hnone', List.append_nil]
      exact ⟨.int, .int, rfl, .inl hdigits, rfl⟩
    · refine ⟨.float, .float, ?_, .inr (Language.append_mem_mul hdigits hexponent), rfl⟩
      obtain ⟨e, sign, ds, -, -, -, heq⟩ := mem_exponentPart.mp hexponent
      rw [heq]
      rfl
  · refine ⟨.float, .float, ?_, .inl ?_, rfl⟩
    · obtain ⟨ds, -, heq⟩ := mem_fractionPart.mp hfraction
      rw [heq]
      rfl
    · rw [← List.append_assoc]
      exact Language.append_mem_mul (Language.append_mem_mul hdigits hfraction) hexpo

/-- A number is the longest match at its place. -/
theorem longestMatch_number (hc : c.isDigit = true) (cs : List Char) :
    ∃ pattern kind text, number c cs = .token kind text ∧ LongestMatch pattern text (c :: cs) ∧
      pattern.kind? text = some kind := by
  have hlongest (text : List Char) (hdecimal : (decimalText c cs).length ≤ text.length)
      (hhex : ∀ b ∈ hexPart, c = '0' → b <+: cs → b.length + 1 ≤ text.length)
      (other : Pattern) (w : List Char) (hw : w ∈ other.language) (hstart : w <+: c :: cs) :
      w.length ≤ text.length := by
    have hother := (Pattern.class_of_starts hw hstart).1
    rw [CharClass.of_digit hc] at hother
    cases other with
    | float => exact (length_le_decimal hc (.inr hw) hstart).trans hdecimal
    | int =>
      rcases hw with hdigits | hw
      · exact (length_le_decimal hc (.inl hdigits) hstart).trans hdecimal
      · obtain ⟨_, rfl, b, hb, rfl⟩ := Language.mem_mul.mp hw
        obtain ⟨rfl, htail⟩ := List.cons_prefix_cons.mp hstart
        exact hhex b hb rfl htail
    | _ => cases hother
  have hstarts (tail : List Char) (htail : tail <+: cs) : c :: tail <+: c :: cs :=
    List.cons_prefix_cons.mpr ⟨rfl, htail⟩
  cases hempty : (if c = '0' then hexTail cs else []).isEmpty with
  | false =>
    obtain ⟨rfl, hmem, hnumber⟩ := number_of_hexTail hempty
    have htail := hexTail_prefix cs
    refine ⟨.int, .int, _, hnumber, .of_longest ?_ (hstarts _ htail) ?_, rfl⟩
    · exact .inr (Language.append_mem_mul (a := ['0']) rfl hmem)
    · refine hlongest _ ?_ fun b hb _ htail => ?_
      · obtain ⟨x, hs, hx, -, heq⟩ := mem_hexPart.mp hmem
        obtain ⟨rest, hrest⟩ := hexTail_prefix cs
        rw [heq, List.cons_append] at hrest
        rw [← hrest, decimalText_of_hexTail hx]
        simp
      · have hle := (isLongest_hexTail cs).longest b (.inr hb) htail
        simp only [List.length_cons]
        omega
  | true =>
    obtain ⟨pattern, kind, hnumber, hfits, hkind⟩ := number_of_decimal hc hempty
    refine ⟨pattern, kind, _, hnumber, .of_longest hfits (isLongest_decimal hc).starts ?_, hkind⟩
    refine hlongest _ (Nat.le_refl _) fun b hb hzero htail => ?_
    -- There are no hexadecimal digits behind a zero here.
    rw [if_pos hzero, List.isEmpty_iff] at hempty
    have hle := (isLongest_hexTail cs).longest b (.inr hb) htail
    obtain ⟨x, hs, -, -, rfl⟩ := mem_hexPart.mp hb
    rw [hempty] at hle
    cases hle

/-! ## Words, blanks and signs -/

theorem longestMatch_word (hc : isNameStart c = true) :
    LongestMatch .name (c :: cs.takeWhile isNameRest) (c :: cs) := by
  refine .of_longest ?_ (List.cons_prefix_cons.mpr ⟨rfl, List.takeWhile_prefix _⟩) ?_
  · exact Language.append_mem_mul (a := [c]) ⟨c, hc, rfl⟩ fun d hd => List.mem_takeWhile_imp hd
  · intro other w hw hstart
    obtain ⟨hclass, tail, rfl, htail⟩ := Pattern.class_of_starts hw hstart
    rw [CharClass.of_letter hc] at hclass
    cases other with
    | name =>
      obtain ⟨_, ⟨d, -, rfl⟩, b, hb, heq⟩ := Language.mem_mul.mp hw
      obtain ⟨rfl, rfl⟩ := List.cons.inj heq
      exact Nat.succ_le_succ (prefix_takeWhile htail hb).length_le
    | _ => cases hclass

theorem longestMatch_blanks (hc : isBlank c = true) :
    LongestMatch .blanks (c :: cs.takeWhile isBlank) (c :: cs) := by
  refine .of_longest ⟨by simp, List.forall_mem_cons.mpr ⟨hc, ?_⟩⟩
    (List.cons_prefix_cons.mpr ⟨rfl, List.takeWhile_prefix _⟩) ?_
  · exact fun d hd => List.mem_takeWhile_imp hd
  · intro other w hw hstart
    obtain ⟨hclass, tail, rfl, htail⟩ := Pattern.class_of_starts hw hstart
    rw [CharClass.of_blank hc] at hclass
    cases other with
    | blanks =>
      have hall : ∀ d ∈ tail, isBlank d = true := fun d hd => hw.2 d (by simp [hd])
      exact Nat.succ_le_succ (prefix_takeWhile htail hall).length_le
    | _ => cases hclass

theorem longestMatch_lineFeed (cs : List Char) : LongestMatch .lineFeed ['\n'] ('\n' :: cs) := by
  refine .of_longest rfl (List.cons_prefix_cons.mpr ⟨rfl, List.nil_prefix⟩) ?_
  intro other w hw hstart
  have hclass := (Pattern.class_of_starts hw hstart).1
  cases other with
  | lineFeed => exact (congrArg List.length (mem_exactly.mp hw)).le
  | _ => cases hclass

theorem longestMatch_quote (cs : List Char) : LongestMatch .quote ['"'] ('"' :: cs) := by
  refine .of_longest rfl (List.cons_prefix_cons.mpr ⟨rfl, List.nil_prefix⟩) ?_
  intro other w hw hstart
  have hclass := (Pattern.class_of_starts hw hstart).1
  cases other with
  | quote => exact (congrArg List.length (mem_exactly.mp hw)).le
  | _ => cases hclass

theorem sign_text_length : ∀ kind ∈ TokenKind.signs, kind.text.toList.length ≤ 2 := by
  decide +kernel

/-- What starts like a sign has two characters at most. -/
theorem length_le_two {other : Pattern} (hw : w ∈ other.language)
    (hother : other.charClass = .other) : w.length ≤ 2 := by
  cases other with
  | sign kind hkind =>
    rw [mem_exactly.mp hw]
    exact sign_text_length kind hkind
  | lineComment | blockComment => exact (congrArg List.length (mem_exactly.mp hw)).le
  | _ => cases hother

theorem longestMatch_comment {pattern : Pattern} {d : Char}
    (hpattern : pattern.language = exactly ['/', d]) (cs : List Char) :
    LongestMatch pattern ['/', d] ('/' :: d :: cs) := by
  refine .of_longest (hpattern ▸ rfl) ⟨cs, rfl⟩ fun other w hw hstart => ?_
  exact length_le_two hw (Pattern.class_of_starts hw hstart).1

/-- The signs stand in the order of their lengths, the longest first. -/
theorem signs_descend : TokenKind.signs.Pairwise fun a b =>
    b.text.toList.length ≤ a.text.toList.length := by
  decide +kernel

theorem sign?_eq_some {kind : TokenKind} (h : sign? input = some kind) :
    kind ∈ TokenKind.signs ∧ kind.text.toList <+: input ∧
      ∀ other ∈ TokenKind.signs, other.text.toList <+: input →
        other.text.toList.length ≤ kind.text.toList.length := by
  obtain ⟨hstarts, before, behind, hsigns, hbefore⟩ := List.find?_eq_some_iff_append.mp h
  refine ⟨List.mem_of_find?_eq_some h, List.isPrefixOf_iff_prefix.mp hstarts, ?_⟩
  intro other hother hstart
  rw [hsigns, List.mem_append, List.mem_cons] at hother
  rcases hother with hmem | rfl | hmem
  · have hnot := hbefore other hmem
    rw [List.isPrefixOf_iff_prefix.mpr hstart] at hnot
    cases hnot
  · exact Nat.le_refl _
  · have hdescend := signs_descend
    rw [hsigns, List.pairwise_append, List.pairwise_cons] at hdescend
    exact hdescend.2.1.1 other hmem

/-- What starts like a sign is one, unless a comment starts there. -/
theorem sign_of_starts {other : Pattern} (hw : w ∈ other.language) (hstart : w <+: c :: cs)
    (hclass : CharClass.of c = .other) (hline : ¬(c = '/' ∧ cs.head? = some '/'))
    (hblock : ¬(c = '/' ∧ cs.head? = some '*')) :
    ∃ kind ∈ TokenKind.signs, w = kind.text.toList := by
  have hother := (Pattern.class_of_starts hw hstart).1
  rw [hclass] at hother
  cases other with
  | sign kind hkind => exact ⟨kind, hkind, mem_exactly.mp hw⟩
  | lineComment =>
    obtain rfl := mem_exactly.mp hw
    obtain ⟨rest, hrest⟩ := hstart
    obtain ⟨rfl, rfl⟩ := List.cons.inj hrest
    exact absurd ⟨rfl, rfl⟩ hline
  | blockComment =>
    obtain rfl := mem_exactly.mp hw
    obtain ⟨rest, hrest⟩ := hstart
    obtain ⟨rfl, rfl⟩ := List.cons.inj hrest
    exact absurd ⟨rfl, rfl⟩ hblock
  | _ => cases hother

theorem longestMatch_sign {kind : TokenKind} (hclass : CharClass.of c = .other)
    (hline : ¬(c = '/' ∧ cs.head? = some '/')) (hblock : ¬(c = '/' ∧ cs.head? = some '*'))
    (h : sign? (c :: cs) = some kind) :
    ∃ hkind, LongestMatch (.sign kind hkind) kind.text.toList (c :: cs) := by
  obtain ⟨hkind, hstarts, hlongest⟩ := sign?_eq_some h
  refine ⟨hkind, .of_longest rfl hstarts fun other w hw hstart => ?_⟩
  obtain ⟨kind', hkind', rfl⟩ := sign_of_starts hw hstart hclass hline hblock
  exact hlongest kind' hkind' hstart

theorem unmatched_of_sign? (hclass : CharClass.of c = .other)
    (hline : ¬(c = '/' ∧ cs.head? = some '/')) (hblock : ¬(c = '/' ∧ cs.head? = some '*'))
    (h : sign? (c :: cs) = none) : Unmatched (c :: cs) := by
  intro other w hw hstart
  obtain ⟨kind, hkind, rfl⟩ := sign_of_starts hw hstart hclass hline hblock
  exact List.find?_eq_none.mp h kind hkind (List.isPrefixOf_iff_prefix.mpr hstart)

/-! ## The lexeme at the head of a text -/

/-- What the patterns make of the head of a text. A match is a token or, where its pattern has no
kind, a gap; a quote opens a string if there is another quote behind it. -/
inductive Reads : List Char → Lexeme → Prop where
  | token {pattern : Pattern} {kind : TokenKind} {text input : List Char}
      (h : LongestMatch pattern text input) (hkind : pattern.kind? text = some kind) :
      Reads input (.token kind text)
  | gap {pattern : Pattern} {text input : List Char} (h : LongestMatch pattern text input)
      (hkind : pattern.kind? text = none) (hquote : pattern ≠ .quote) (more : List Char) :
      Reads input (.gap (text ++ more))
  | string {text rest : List Char} (h : '"' ∉ text) :
      Reads ('"' :: (text ++ '"' :: rest)) (.token .string ('"' :: (text ++ ['"'])))
  | unclosed {rest : List Char} (h : '"' ∉ rest) : Reads ('"' :: rest) (.token .illegal ['"'])
  | unmatched {c : Char} {rest : List Char} (h : Unmatched (c :: rest)) :
      Reads (c :: rest) (.token .illegal [c])

theorem reads_quote (cs : List Char) : Reads ('"' :: cs) (first '"' cs) := by
  rw [first_quote]
  split
  · rename_i hcs
    obtain ⟨rest, hrest⟩ := closing_quote (by simpa using hcs)
    have hnone : '"' ∉ cs.takeWhile (· ≠ '"') := by
      intro hmem
      simpa using List.mem_takeWhile_imp hmem
    have hstring : Reads ('"' :: (cs.takeWhile (· ≠ '"') ++ '"' :: rest))
        (.token .string ('"' :: (cs.takeWhile (· ≠ '"') ++ ['"']))) := .string hnone
    rwa [← hrest] at hstring
  · rename_i hcs
    exact .unclosed (by simpa using hcs)

/-- The lexeme at the head of a text is what the patterns say. -/
theorem reads_first (c : Char) (cs : List Char) : Reads (c :: cs) (first c cs) := by
  by_cases hquote : c = '"'
  · rw [hquote]
    exact reads_quote cs
  unfold first
  split
  · rename_i hc
    rw [hc]
    exact .gap (longestMatch_lineFeed cs) rfl (by simp) []
  split
  · rename_i hc
    have hmatch : LongestMatch .blanks (c :: cs.takeWhile isBlank) (c :: cs) :=
      longestMatch_blanks hc
    simpa using Reads.gap hmatch rfl (by simp) []
  split
  · rename_i hc
    obtain ⟨pattern, kind, text, hnumber, hmatch, hkind⟩ := longestMatch_number hc cs
    rw [hnumber]
    exact .token hmatch hkind
  split
  · rename_i hc
    exact .token (longestMatch_word hc) rfl
  rename_i hline hblank hdigit hletter
  have hclass : CharClass.of c = .other := by
    simp [CharClass.of, hline, hblank, hdigit, hletter, hquote]
  split
  · rename_i hcomment
    obtain ⟨rfl, hhead⟩ := hcomment
    obtain ⟨rest, rfl⟩ := eq_cons_of_head? hhead
    have hmatch : LongestMatch .lineComment ['/', '/'] ('/' :: '/' :: rest) :=
      longestMatch_comment rfl rest
    exact .gap hmatch rfl (by simp) _
  split
  · rename_i hcomment
    obtain ⟨rfl, hhead⟩ := hcomment
    obtain ⟨rest, rfl⟩ := eq_cons_of_head? hhead
    have hmatch : LongestMatch .blockComment ['/', '*'] ('/' :: '*' :: rest) :=
      longestMatch_comment rfl rest
    exact .gap hmatch rfl (by simp) _
  rename_i hlineComment hblockComment
  split
  · rename_i kind hsign
    obtain ⟨hkind, hmatch⟩ := longestMatch_sign hclass hlineComment hblockComment hsign
    exact .token hmatch rfl
  · rename_i hsign
    exact .unmatched (unmatched_of_sign? hclass hlineComment hblockComment hsign)

end Lexeme

/-! ## Tokens -/

theorem Pattern.kind?_cases {pattern : Pattern} {kind : TokenKind}
    (h : pattern.kind? text = some kind) :
    kind ≠ .string ∧ kind ≠ .illegal ∧ kind ≠ .endOfText := by
  cases pattern with
  | name =>
    have hmem := ofWord_mem (String.ofList text)
    rw [Option.some.inj h] at hmem
    refine ⟨?_, ?_, ?_⟩ <;> (rintro rfl; revert hmem; decide)
  | sign kind' hkind =>
    rw [Option.some.inj h] at hkind
    refine ⟨?_, ?_, ?_⟩ <;> (rintro rfl; revert hkind; decide)
  | float | int =>
    cases h
    decide
  | _ => cases h

/-- A token at the head of a text, its text being what the token covers. It is the longest match of
one pattern, which gives it its kind. A token that is illegal is one character, where no pattern
matches or a quote has no other quote behind it. A string is opened by a quote and goes on to the
next one. -/
structure Token.CutFrom (token : Token) (input : List Char) : Prop where
  longest : token.kind ≠ .string → token.kind ≠ .illegal → token.kind ≠ .endOfText →
    ∃ pattern, LongestMatch pattern token.raw input ∧ pattern.kind? token.raw = some token.kind
  illegal : token.kind = .illegal → ∃ c rest, token.raw = [c] ∧ input = c :: rest ∧
    (Unmatched input ∨ c = '"' ∧ '"' ∉ rest)
  string : token.kind = .string → LongestMatch .quote ['"'] input ∧ token.raw <+: input ∧
    ∃ inside, token.raw = '"' :: (inside ++ ['"']) ∧ '"' ∉ inside
  finish : token.kind = .endOfText → token.raw = [] ∧ input = []

theorem Lexeme.Reads.cutFrom {kind : TokenKind} {literal : String} {position : Position}
    (h : Reads input (.token kind (Token.raw ⟨kind, literal, position⟩))) :
    Token.CutFrom ⟨kind, literal, position⟩ input := by
  generalize hraw : Token.raw ⟨kind, literal, position⟩ = raw at h
  cases h with
  | token hmatch hkind =>
    obtain ⟨hstring, hillegal, hfinish⟩ := Pattern.kind?_cases hkind
    rw [← hraw] at hmatch hkind
    exact ⟨fun _ _ _ => ⟨_, hmatch, hkind⟩, fun h => absurd h hillegal,
      fun h => absurd h hstring, fun h => absurd h hfinish⟩
  | @string inside rest hinside =>
    refine ⟨fun h => absurd rfl h, nofun, fun _ => ?_, nofun⟩
    refine ⟨longestMatch_quote _, ?_, inside, hraw, hinside⟩
    rw [hraw]
    exact ⟨rest, by simp⟩
  | @unclosed rest hrest =>
    exact ⟨fun _ h => absurd rfl h, fun _ => ⟨'"', rest, hraw, rfl, .inr ⟨rfl, hrest⟩⟩, nofun,
      nofun⟩
  | @unmatched c rest hnone =>
    exact ⟨fun _ h => absurd rfl h, fun _ => ⟨c, rest, hraw, rfl, .inl hnone⟩, nofun, nofun⟩

/-! ## Texts -/

/-- A text read lexeme after lexeme from a place on: the tokens in it and the place behind it. -/
inductive Scans : Position → List Char → List Token → Position → Prop where
  | nil (position : Position) : Scans position [] [] position
  | gap {position finish : Position} {raw behind : List Char} {tokens : List Token}
      (h : Lexeme.Reads (raw ++ behind) (.gap raw))
      (hrest : Scans (position.advance raw) behind tokens finish) :
      Scans position (raw ++ behind) tokens finish
  | token {token : Token} {finish : Position} {behind : List Char} {tokens : List Token}
      (h : Lexeme.Reads (token.raw ++ behind) (.token token.kind token.raw))
      (hrest : Scans (token.position.advance token.raw) behind tokens finish) :
      Scans token.position (token.raw ++ behind) (token :: tokens) finish

theorem Scans.of_raw {token : Token} {finish : Position} {tokens : List Token}
    {raw behind : List Char} (hraw : token.raw = raw)
    (h : Lexeme.Reads (raw ++ behind) (.token token.kind raw))
    (hrest : Scans (token.position.advance raw) behind tokens finish) :
    Scans token.position (raw ++ behind) (token :: tokens) finish := by
  subst hraw
  exact .token h hrest

/-- Scanning reads the text. -/
theorem scans_scanFrom (position : Position) (cs : List Char) :
    Scans position cs (scanFrom position cs).1 (scanFrom position cs).2 := by
  induction cs using endsInComment.induct generalizing position with
  | case1 =>
    rw [scanFrom]
    exact .nil position
  | case2 c cs ih =>
    have hreads := Lexeme.reads_first c cs
    have hstarts := Lexeme.starts_first c cs
    have hsplit := hstarts.raw_append
    cases hfirst : Lexeme.first c cs with
    | gap raw =>
      rw [hfirst] at ih hreads hsplit
      rw [scanFrom_gap hfirst]
      rw [← hsplit] at hreads ⊢
      exact .gap hreads (ih _)
    | token kind raw =>
      rw [hfirst] at ih hreads hsplit hstarts
      rw [scanFrom_token hfirst]
      rw [← hsplit] at hreads ⊢
      exact .of_raw (hstarts.token_raw position) hreads (ih _)

namespace Scans

variable {position finish : Position} {tokens : List Token}

/-- Every token stands in the text, behind what is before it. -/
theorem reads (h : Scans position cs tokens finish) : ∀ token ∈ tokens, ∃ before input,
    cs = before ++ input ∧ token.position = position.advance before ∧
      Lexeme.Reads input (.token token.kind token.raw) := by
  have hlater {raw behind : List Char} {position : Position} {token : Token}
      (h : ∃ before input, behind = before ++ input ∧
        token.position = (position.advance raw).advance before ∧
        Lexeme.Reads input (.token token.kind token.raw)) : ∃ before input,
      raw ++ behind = before ++ input ∧ token.position = position.advance before ∧
        Lexeme.Reads input (.token token.kind token.raw) := by
    obtain ⟨before, input, rfl, hplace, hread⟩ := h
    refine ⟨raw ++ before, input, by simp, ?_, hread⟩
    rw [hplace, Position.advance_append]
  induction h with
  | nil => simp
  | gap _ _ ih => exact fun token htoken => hlater (ih token htoken)
  | token h _ ih =>
    refine List.forall_mem_cons.mpr ⟨⟨[], _, rfl, rfl, h⟩, ?_⟩
    exact fun token htoken => hlater (ih token htoken)

/-- The place of the end is behind the whole text. -/
theorem finish_eq (h : Scans position cs tokens finish) : finish = position.advance cs := by
  induction h with
  | nil => rfl
  | gap _ _ ih | token _ _ ih => rw [ih, Position.advance_append]

end Scans

/-- Every token is cut from the text at its place, by the longest match. The end of the text is the
token behind everything. -/
theorem tokens_are_longest_matches (source : String) (token : Token)
    (h : token ∈ tokenize source) :
    ∃ before input, source.toList = before ++ input ∧
      token.position = Position.start.advance before ∧ token.CutFrom input := by
  have hscans := scans_scanFrom .start source.toList
  rw [tokenize_eq, List.mem_append, List.mem_singleton] at h
  rcases h with hmem | rfl
  · obtain ⟨before, input, hsource, hplace, hread⟩ := hscans.reads token hmem
    exact ⟨before, input, hsource, hplace, hread.cutFrom⟩
  · refine ⟨source.toList, [], by simp, hscans.finish_eq, ?_⟩
    exact ⟨fun _ _ h => absurd rfl h, nofun, nofun, fun _ => ⟨rfl, rfl⟩⟩

/-- A number that looks like going on ends where it cannot. -/
theorem float_ends_before_name :
    (⟨.float, "1.5", ⟨1, 2⟩⟩ : Token) ∈ tokenize "-1.5e" ∧
      ∃ before input, "-1.5e".toList = before ++ input ∧
        (⟨1, 2⟩ : Position) = Position.start.advance before ∧
        Token.CutFrom ⟨.float, "1.5", ⟨1, 2⟩⟩ input := by
  have hmem : (⟨.float, "1.5", ⟨1, 2⟩⟩ : Token) ∈ tokenize "-1.5e" := by decide +kernel
  exact ⟨hmem, tokens_are_longest_matches "-1.5e" _ hmem⟩

end ScriptLang
