-- What numerals stand for. A digit is worth its place among the digits, a row of digits the sum of
-- their worths times powers of the base, and a float the exact number with its fraction and its
-- exponent, rounded once. Literals are read as what they stand for.
import Mathlib
import ScriptLang.Number.Literal
import ScriptLang.Proofs.LongestMatch
import ScriptLang.Proofs.NearestFloats

namespace ScriptLang

/-! ## Digits -/

/-- What a digit is worth: its place among the digits. -/
def digitWorth (c : Char) : ℕ := "0123456789abcdef".toList.idxOf c.toLower

/-- What a row of digits stands for. -/
def digitsWorth (base : ℕ) (ds : List Char) : ℕ :=
  Nat.ofDigits base (ds.map digitWorth).reverse

theorem digitsWorth_append (base : ℕ) (as bs : List Char) :
    digitsWorth base (as ++ bs) = digitsWorth base as * base ^ bs.length + digitsWorth base bs := by
  unfold digitsWorth
  rw [List.map_append, List.reverse_append, Nat.ofDigits_append, List.length_reverse,
    List.length_map]
  ring

theorem toNat_lt_of_isHexDigit {c : Char} (h : isHexDigit c = true) : c.toNat < 128 := by
  simp only [isHexDigit, Char.isDigit, Bool.or_eq_true, Bool.and_eq_true, decide_eq_true_eq,
    Char.le_def, UInt32.le_iff_toNat_le] at h
  change c.val.toNat < 128
  rcases h with (h | h) | h
  all_goals
    have hle := h.2
    exact Nat.lt_of_le_of_lt hle (by decide)

theorem hexDigitValue_eq {c : Char} (h : isHexDigit c = true) : hexDigitValue c = digitWorth c := by
  have hall : ∀ n < 128, isHexDigit (Char.ofNat n) = true →
      hexDigitValue (Char.ofNat n) = digitWorth (Char.ofNat n) := by decide +kernel
  have hc := hall c.toNat (toNat_lt_of_isHexDigit h)
  rw [Char.ofNat_toNat] at hc
  exact hc h

theorem isHexDigit_of_isDigit {c : Char} (h : c.isDigit = true) : isHexDigit c = true := by
  simp [isHexDigit, h]

theorem digitValue_eq {c : Char} (h : c.isDigit = true) : c.toNat - '0'.toNat = digitWorth c := by
  rw [← hexDigitValue_eq (isHexDigit_of_isDigit h)]
  simp [hexDigitValue, h]

/-- Reading digits from the left gives what they stand for. -/
theorem foldl_digits_eq {base : ℕ} {value : Char → ℕ} {ds : List Char}
    (h : ∀ c ∈ ds, value c = digitWorth c) :
    ds.foldl (fun n c => base * n + value c) 0 = digitsWorth base ds := by
  induction ds using List.reverseRecOn with
  | nil => rfl
  | append_singleton ds c ih =>
    have hlast : digitsWorth base [c] = digitWorth c := by simp [digitsWorth]
    rw [List.foldl_append, ih fun d hd => h d (by simp [hd]), digitsWorth_append, hlast]
    simp [h c (by simp), mul_comm]

theorem Decimal.ofDigits_eq {ds : List Char} (h : ∀ c ∈ ds, c.isDigit = true) :
    Decimal.ofDigits ds = digitsWorth 10 ds :=
  foldl_digits_eq fun c hc => digitValue_eq (h c hc)

theorem ofHexDigits_eq {ds : List Char} (h : ∀ c ∈ ds, isHexDigit c = true) :
    ofHexDigits ds = digitsWorth 16 ds :=
  foldl_digits_eq fun c hc => hexDigitValue_eq (h c hc)

/-! ## Numerals -/

/-- What an integer numeral stands for. -/
inductive IntNumeral : List Char → ℕ → Prop where
  | decimal {ds : List Char} (h : ds ∈ digits) : IntNumeral ds (digitsWorth 10 ds)
  | hexadecimal {x : Char} {ds : List Char} (hx : x = 'x' ∨ x = 'X')
      (h : ds ∈ oneOrMore isHexDigit) : IntNumeral ('0' :: x :: ds) (digitsWorth 16 ds)

/-- What the part behind the point stands for. -/
inductive FractionNumeral : List Char → ℚ → Prop where
  | none : FractionNumeral [] 0
  | digits {ds : List Char} (h : ds ∈ digits) :
      FractionNumeral ('.' :: ds) (digitsWorth 10 ds / 10 ^ ds.length)

/-- The power of ten that an exponent stands for. -/
inductive ExponentNumeral : List Char → ℤ → Prop where
  | none : ExponentNumeral [] 0
  | plain {e : Char} {ds : List Char} (he : isExponentMark e = true) (h : ds ∈ digits) :
      ExponentNumeral (e :: ds) (digitsWorth 10 ds)
  | plus {e : Char} {ds : List Char} (he : isExponentMark e = true) (h : ds ∈ digits) :
      ExponentNumeral (e :: '+' :: ds) (digitsWorth 10 ds)
  | minus {e : Char} {ds : List Char} (he : isExponentMark e = true) (h : ds ∈ digits) :
      ExponentNumeral (e :: '-' :: ds) (-digitsWorth 10 ds)

/-- The exact number that a float numeral stands for. -/
inductive FloatNumeral : List Char → ℚ → Prop where
  | parts {whole fraction exponent : List Char} {f : ℚ} {n : ℤ} (hwhole : whole ∈ digits)
      (hfraction : FractionNumeral fraction f) (hexponent : ExponentNumeral exponent n) :
      FloatNumeral (whole ++ fraction ++ exponent) ((digitsWorth 10 whole + f) * 10 ^ n)

/-! ## What is read -/

/-- The number of an integer numeral is the one that is read. -/
theorem integerLiteral?_of_numeral {literal : String} {n : ℕ}
    (h : IntNumeral literal.toList n) : integerLiteral? literal = Integer.ofExact? n := by
  unfold integerLiteral?
  generalize literal.toList = text at h
  cases h with
  | decimal h =>
    obtain ⟨-, hdigits⟩ := h
    -- Behind a first zero there is no `x`, for that is no digit.
    split
    · exact absurd (hdigits 'x' (by simp)) (by decide)
    · exact absurd (hdigits 'X' (by simp)) (by decide)
    · rw [Decimal.ofDigits_eq hdigits]
  | hexadecimal hx h =>
    obtain ⟨-, hdigits⟩ := h
    rcases hx with rfl | rfl <;> rw [← ofHexDigits_eq hdigits] <;> rfl

theorem isExponentMark_of_isDigit {c : Char} (h : c.isDigit = true) : isExponentMark c = false := by
  cases hmark : isExponentMark c with
  | false => rfl
  | true =>
    have hnumber : isNumberMark c = true := by simp [isNumberMark, hmark]
    rw [isDigit_of_isNumberMark hnumber] at h
    cases h

theorem unmarked_eq :
    (fun c : Char => decide (c ≠ 'e' ∧ c ≠ 'E')) = fun c => !isExponentMark c := by
  funext c
  by_cases he : c = 'e' <;> by_cases hE : c = 'E' <;> simp [isExponentMark, he, hE]

/-- A fraction is a dot, which is neither a digit nor the mark of an exponent, and digits. -/
structure ReadsFraction (fraction : List Char) (f : ℚ) : Prop where
  unmarked : ∀ c ∈ fraction, isExponentMark c = false
  stops : fraction.takeWhile Char.isDigit = []
  digits : ∀ c ∈ fraction.drop 1, c.isDigit = true
  value : f = digitsWorth 10 (fraction.drop 1) / 10 ^ (fraction.drop 1).length

theorem FractionNumeral.reads {fraction : List Char} {f : ℚ} (h : FractionNumeral fraction f) :
    ReadsFraction fraction f := by
  cases h with
  | none => exact ⟨by simp, rfl, by simp, by simp [digitsWorth]⟩
  | digits h =>
    refine ⟨?_, rfl, h.2, rfl⟩
    intro c hc
    rcases List.mem_cons.mp hc with rfl | hd
    · rfl
    · exact isExponentMark_of_isDigit (h.2 c hd)

/-- An exponent is read behind its mark: a minus, if there is one, and the digits. -/
theorem ExponentNumeral.reads {exponent : List Char} {n : ℤ} (h : ExponentNumeral exponent n) :
    exponent.takeWhile (fun c => !isExponentMark c) = [] ∧
      (if (exponent.drop 1).head? = some '-'
        then -(Decimal.ofDigits ((exponent.drop 1).filter Char.isDigit) : ℤ)
        else Decimal.ofDigits ((exponent.drop 1).filter Char.isDigit)) = n := by
  have hfilter {ds : List Char} (h : ds ∈ digits) : ds.filter Char.isDigit = ds :=
    List.filter_eq_self.mpr h.2
  cases h with
  | none => exact ⟨rfl, rfl⟩
  | @plain e ds he h =>
    have hsign : ds.head? ≠ some '-' := by
      intro hhead
      exact absurd (h.2 '-' (List.mem_of_head? hhead)) (by decide)
    simp [he, hfilter h, hsign, Decimal.ofDigits_eq h.2]
  | plus he h =>
    have hplus : '+'.isDigit = false := rfl
    simp [he, hplus, hfilter h, Decimal.ofDigits_eq h.2]
  | minus he h =>
    have hminus : '-'.isDigit = false := rfl
    simp [he, hminus, hfilter h, Decimal.ofDigits_eq h.2]

/-- The decimal that is read is the number that a float numeral stands for. -/
theorem value_ofLiteral {text : List Char} {q : ℚ} (h : FloatNumeral text q) :
    (Decimal.ofLiteral text).value = q := by
  cases h with
  | @parts whole fraction exponent f n hwhole hfraction hexponent =>
    obtain ⟨-, hdigits⟩ := hwhole
    obtain ⟨hunmarked, hstops, hbehind, hf⟩ := hfraction.reads
    obtain ⟨hmark, hn⟩ := hexponent.reads
    have hmantissa : (whole ++ fraction ++ exponent).takeWhile (fun c => c ≠ 'e' ∧ c ≠ 'E') =
        whole ++ fraction := by
      rw [unmarked_eq, List.takeWhile_append_of_pos, hmark, List.append_nil]
      intro c hc
      rcases List.mem_append.mp hc with hc | hc
      · simp [isExponentMark_of_isDigit (hdigits c hc)]
      · simp [hunmarked c hc]
    have hwhole : (whole ++ fraction).takeWhile Char.isDigit = whole := by
      rw [List.takeWhile_append_of_pos hdigits, hstops, List.append_nil]
    have hcoefficient : ∀ c ∈ whole ++ fraction.drop 1, c.isDigit = true := by
      intro c hc
      rcases List.mem_append.mp hc with hc | hc
      · exact hdigits c hc
      · exact hbehind c hc
    unfold Decimal.ofLiteral Decimal.value
    dsimp only
    rw [hmantissa, hwhole, List.drop_left, List.drop_left, hn, Decimal.ofDigits_eq hcoefficient,
      digitsWorth_append, hf, zpow_sub₀ (by norm_num), zpow_natCast]
    push_cast
    field_simp

/-- A float literal is read as the float that its number is rounded to, and as none if that would
be infinite. -/
theorem floatLiteral?_eq_some_iff {literal : String} {q : ℚ} {x : Float}
    (h : FloatNumeral literal.toList q) : floatLiteral? literal = some x ↔ RoundsTo q x := by
  unfold floatLiteral?
  rw [Decimal.toFloat?_eq_some_iff, value_ofLiteral h]

/-! ## Every literal is a numeral -/

theorem exists_intNumeral {text : List Char} (h : text ∈ Pattern.int.language) :
    ∃ n, IntNumeral text n := by
  rcases h with h | h
  · exact ⟨_, .decimal h⟩
  · obtain ⟨_, rfl, _, hhex, rfl⟩ := Language.mem_mul.mp h
    obtain ⟨x, ds, hx, hds, rfl⟩ := mem_hexPart.mp hhex
    exact ⟨_, .hexadecimal hx hds⟩

theorem exists_exponentNumeral {text : List Char} (h : text ∈ exponentPart) :
    ∃ n, ExponentNumeral text n := by
  obtain ⟨e, sign, ds, he, hsign, hds, rfl⟩ := mem_exponentPart.mp h
  rcases hsign with rfl | rfl | rfl
  · exact ⟨_, .plain he hds⟩
  · exact ⟨_, .plus he hds⟩
  · exact ⟨_, .minus he hds⟩

theorem exists_floatNumeral {text : List Char} (h : text ∈ Pattern.float.language) :
    ∃ q, FloatNumeral text q := by
  rcases h with h | h
  · obtain ⟨_, hfirst, exponent, hexponent, rfl⟩ := Language.mem_mul.mp h
    obtain ⟨whole, hwhole, fraction, hfraction, rfl⟩ := Language.mem_mul.mp hfirst
    obtain ⟨ds, hds, rfl⟩ := mem_fractionPart.mp hfraction
    rcases hexponent with hnone | hsome
    · obtain rfl : exponent = [] := hnone
      exact ⟨_, .parts hwhole (.digits hds) .none⟩
    · obtain ⟨n, hn⟩ := exists_exponentNumeral hsome
      exact ⟨_, .parts hwhole (.digits hds) hn⟩
  · obtain ⟨whole, hwhole, exponent, hexponent, rfl⟩ := Language.mem_mul.mp h
    obtain ⟨n, hn⟩ := exists_exponentNumeral hexponent
    have hnumeral := FloatNumeral.parts hwhole .none hn
    rw [List.append_nil] at hnumeral
    exact ⟨_, hnumeral⟩

/-! ## The literals of a source text -/

/-- Numbers are told apart by their patterns. -/
theorem Pattern.number_of_kind? {pattern : Pattern} {text : List Char} {kind : TokenKind}
    (h : pattern.kind? text = some kind) :
    (kind = .int → pattern = .int) ∧ (kind = .float → pattern = .float) := by
  cases pattern with
  | int =>
    cases h
    exact ⟨fun _ => rfl, nofun⟩
  | float =>
    cases h
    exact ⟨nofun, fun _ => rfl⟩
  | name =>
    have hmem := ofWord_mem (String.ofList text)
    rw [Option.some.inj h] at hmem
    constructor <;> (rintro rfl; exact absurd hmem (by decide))
  | sign _ hkind =>
    rw [Option.some.inj h] at hkind
    constructor <;> (rintro rfl; exact absurd hkind (by decide))
  | _ => cases h

/-- The number tokens of a source text have the texts of numbers. -/
theorem number_of_mem_tokenize {source : String} {t : Token} (h : t ∈ tokenize source) :
    (t.kind = .int → t.literal.toList ∈ Pattern.int.language) ∧
      (t.kind = .float → t.literal.toList ∈ Pattern.float.language) := by
  rw [tokenize_eq, List.mem_append, List.mem_singleton] at h
  rcases h with h | rfl
  · obtain ⟨_, input, -, -, hreads⟩ := (scans_scanFrom .start source.toList).reads t h
    have hraw (hkind : t.kind ≠ .string) : t.raw = t.literal.toList := if_neg hkind
    generalize hraws : t.raw = raw at hreads
    generalize hkinds : t.kind = kind at hreads hraw ⊢
    cases hreads with
    | token hmatch hkind =>
      obtain ⟨hint, hfloat⟩ := Pattern.number_of_kind? hkind
      have hstring := (Pattern.kind?_cases hkind).1
      rw [← hraw hstring, hraws]
      exact ⟨fun h => hint h ▸ hmatch.fits, fun h => hfloat h ▸ hmatch.fits⟩
    | string | unclosed | unmatched => exact ⟨nofun, nofun⟩
  · exact ⟨nofun, nofun⟩

end ScriptLang
