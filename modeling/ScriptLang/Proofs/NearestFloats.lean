-- The float nearest to a number. A decimal is read as the finite float that no other one is nearer
-- to, of two that are equally near as the one with the even mantissa, and as no float at all where
-- the nearest one would be infinite.
import Mathlib
import ScriptLang.Number.Decimal

namespace ScriptLang

/-! ## The fields of 64 bits -/

section Fields

open Float.Model (Format)
open Float.Model.UnpackedFloat

variable (b : BitVec 64) (s : Sign) (e : BitVec 11) (m : BitVec 52)

theorem toNat_unpackSign :
    (@unpackSign Format.binary64 b).toNat = b.toNat / 2 ^ 63 % 2 := by
  unfold unpackSign
  simp [Nat.shiftRight_eq_div_pow]

theorem toNat_unpackExponent :
    (@unpackExponent Format.binary64 b).toNat = b.toNat / 2 ^ 52 % 2048 := by
  unfold unpackExponent
  simp [Nat.shiftRight_eq_div_pow]

theorem toNat_unpackMantissa :
    (@unpackMantissa Format.binary64 b).toNat = b.toNat % 2 ^ 52 := by
  unfold unpackMantissa
  simp

theorem toNat_packComponents : (packComponents Format.binary64 s e m).toNat =
    s.toBitVec.toNat * 2 ^ 63 + e.toNat * 2 ^ 52 + m.toNat := by
  change BitVec.toNat ((s.toBitVec ++ e) ++ m) = _
  rw [BitVec.toNat_append, BitVec.toNat_append, ← Nat.shiftLeft_add_eq_or_of_lt e.isLt,
    ← Nat.shiftLeft_add_eq_or_of_lt m.isLt, Nat.shiftLeft_eq, Nat.shiftLeft_eq]
  omega

/-- Bits are their three fields. -/
theorem packComponents_fields : packComponents Format.binary64
    (Sign.ofBitVec (@unpackSign Format.binary64 b))
    (@unpackExponent Format.binary64 b)
    (@unpackMantissa Format.binary64 b) = b := by
  have hsign : ∀ s : BitVec 1, (Sign.ofBitVec s).toBitVec = s := by decide
  have hlt := b.isLt
  apply BitVec.eq_of_toNat_eq
  rw [toNat_packComponents, hsign, toNat_unpackSign, toNat_unpackExponent, toNat_unpackMantissa]
  omega

theorem toNat_implicitBit : (1#1 ++ m).toNat = 2 ^ 52 + m.toNat := by
  rw [BitVec.toNat_append, ← Nat.shiftLeft_add_eq_or_of_lt m.isLt, Nat.shiftLeft_eq]
  rfl

theorem pack_subnormal (hm : 0 < m.toNat) :
    pack Format.binary64 (.finite s m.toNat (-1074) hm) =
      packComponents Format.binary64 s 0 m := by
  have hlog : ¬m.toNat.log2 + 1 = 53 := by
    have hlt := (Nat.log2_lt hm.ne').mpr m.isLt
    omega
  change (if 2 ^ 11 ≤ ((-1074 : Int) + 1023 + 52).toNat + 1 then packedInfinity Format.binary64 s
    else if m.toNat.log2 + 1 = 53 then
      packComponents Format.binary64 s (BitVec.ofNat 11 _) (BitVec.ofNat 52 m.toNat)
    else packComponents Format.binary64 s 0#11 (BitVec.ofNat 52 m.toNat)) = _
  rw [if_neg (by decide), if_neg hlog, BitVec.ofNat_toNat, BitVec.setWidth_eq]
  rfl

theorem pack_normal (he : e.toNat < 2047) (hpos : 0 < (1#1 ++ m).toNat) :
    pack Format.binary64 (.finite s (1#1 ++ m).toNat ((e.toNat : Int) - 1075) hpos) =
      packComponents Format.binary64 s e m := by
  have hm := m.isLt
  have hlog : (1#1 ++ m).toNat.log2 + 1 = 53 := by
    have hlog : (2 ^ 52 + m.toNat).log2 = 52 := (Nat.log2_eq_iff (by omega)).mpr (by omega)
    rw [toNat_implicitBit, hlog]
  have hexponent : ((e.toNat : Int) - 1075 + 1023 + 52).toNat = e.toNat := by omega
  change (if 2 ^ 11 ≤ ((e.toNat : Int) - 1075 + 1023 + 52).toNat + 1 then
      packedInfinity Format.binary64 s
    else if (1#1 ++ m).toNat.log2 + 1 = 53 then
      packComponents Format.binary64 s (BitVec.ofNat 11 ((e.toNat : Int) - 1075 + 1023 + 52).toNat)
        (BitVec.ofNat 52 (1#1 ++ m).toNat)
    else packComponents Format.binary64 s 0#11 (BitVec.ofNat 52 (1#1 ++ m).toNat)) = _
  rw [hexponent, if_neg (by omega), if_pos hlog, toNat_implicitBit, BitVec.ofNat_toNat,
    BitVec.setWidth_eq]
  congr 1
  apply BitVec.eq_of_toNat_eq
  rw [BitVec.toNat_ofNat]
  omega

/-- Unpacking and packing again gives the bits back, unless they are those of an infinite float or
of no number. -/
theorem pack_unpack (h : b.toNat / 2 ^ 52 % 2048 < 2047) :
    pack Format.binary64 (unpack Format.binary64 b) = b := by
  have hfields := packComponents_fields b
  rw [← toNat_unpackExponent] at h
  have hall : @unpackExponent Format.binary64 b ≠ -1#11 := by
    intro heq
    rw [heq] at h
    exact absurd h (by decide)
  unfold unpack
  rw [if_neg hall]
  split
  · rename_i hzero
    split
    · rename_i hnone
      rw [hzero, hnone] at hfields
      exact hfields
    · rw [hzero] at hfields ⊢
      exact (pack_subnormal _ _ _).trans hfields
  · exact (pack_normal _ _ _ h _).trans hfields

end Fields

namespace Decimal

theorem infiniteBits_eq : infiniteBits = 2047 * 2 ^ 52 := rfl

/-- A float has the bits that it is made of. -/
theorem toBits_ofBits {bits : UInt64} (h : bits.toNat < infiniteBits) :
    (Float.ofBits bits).toBits = bits := by
  have hbits : bits.toBitVec.toNat / 2 ^ 52 % 2048 < 2047 := by
    rw [infiniteBits_eq] at h
    rw [UInt64.toNat_toBitVec]
    omega
  exact congrArg UInt64.ofBitVec (pack_unpack bits.toBitVec hbits)

end Decimal

/-! ## Exact values -/

/-- The exact value of a finite float. -/
def Binary.value (b : Binary) : ℚ :=
  (if b.negative then -1 else 1) * (b.mantissa * 2 ^ b.exponent)

/-- The mantissas and exponents of finite floats: a mantissa has all of its 53 bits, or the exponent
is the least one. -/
structure Binary.Legal (b : Binary) : Prop where
  mantissa_lt : b.mantissa < 2 ^ 53
  least_le : -1074 ≤ b.exponent
  le_greatest : b.exponent ≤ 971
  full : b.exponent ≠ -1074 → 2 ^ 52 ≤ b.mantissa

namespace FloatShape

theorem ofBits_legal {bits : UInt64} {b : Binary} (h : ofBits bits = .finite b) : b.Legal := by
  have hpow : Nat.pow 2 52 = 2 ^ 52 := rfl
  unfold ofBits at h
  simp only [hpow] at h
  split at h
  · split at h <;> cases h
  · split at h
    · cases h
      refine ⟨?_, ?_, ?_, ?_⟩ <;> dsimp only <;> omega
    · cases h
      refine ⟨?_, ?_, ?_, ?_⟩ <;> dsimp only <;> omega

theorem legal {x : Float} {b : Binary} (h : FloatShape.of x = .finite b) : b.Legal :=
  ofBits_legal h

/-- The shape of bits that make a finite float without a sign. -/
theorem of_ofBits {bits : ℕ} (h : bits < Decimal.infiniteBits) :
    FloatShape.of (Float.ofBits (.ofNat bits)) = .finite (if bits < 2 ^ 52 then ⟨false, bits, -1074⟩
      else ⟨false, 2 ^ 52 + bits % 2 ^ 52, (bits / 2 ^ 52 : ℕ) - 1075⟩) := by
  have hlt : bits < 2047 * 2 ^ 52 := h
  have hbits : (UInt64.ofNat bits).toNat = bits := by
    rw [UInt64.toNat_ofNat', Nat.mod_eq_of_lt (by omega)]
  have hpow (n : ℕ) : Nat.pow 2 n = 2 ^ n := rfl
  have hsign : ¬bits / 2 ^ 63 = 1 := by omega
  have hexponent : bits / 2 ^ 52 % 2048 = bits / 2 ^ 52 := by omega
  unfold FloatShape.of
  rw [Decimal.toBits_ofBits (by rwa [hbits])]
  unfold ofBits
  simp only [hbits, hpow, hsign, hexponent, decide_false]
  rw [if_neg (by omega)]
  by_cases hsmall : bits < 2 ^ 52
  · rw [if_pos (by omega), if_pos hsmall, Nat.mod_eq_of_lt hsmall]
  · rw [if_neg (by omega), if_neg hsmall]

/-- The float of a mantissa and an exponent, the exponent counted from the least one. A mantissa of
54 bits, as rounding up can give, is half of it with the next exponent. -/
theorem exists_of_mantissa {k m : ℕ} (hm : m ≤ 2 ^ 53) (hfull : k ≠ 0 → 2 ^ 52 ≤ m)
    (hfinite : k * 2 ^ 52 + m < Decimal.infiniteBits) :
    ∃ b, FloatShape.of (Float.ofBits (.ofNat (k * 2 ^ 52 + m))) = .finite b ∧
      b.negative = false ∧ b.value = m * 2 ^ ((k : ℤ) - 1074) ∧ b.mantissa % 2 = m % 2 := by
  refine ⟨_, of_ofBits hfinite, ?_⟩
  by_cases hsmall : k * 2 ^ 52 + m < 2 ^ 52
  · obtain rfl : k = 0 := by omega
    rw [if_pos hsmall]
    simp [Binary.value]
  · rw [if_neg hsmall]
    by_cases hcarry : m = 2 ^ 53
    · have hmod : (k * 2 ^ 52 + m) % 2 ^ 52 = 0 := by omega
      have hdiv : (k * 2 ^ 52 + m) / 2 ^ 52 = k + 2 := by omega
      have hexponent : ((k + 2 : ℕ) : ℤ) - 1075 = ((k : ℤ) - 1074) + 1 := by omega
      rw [hmod, hdiv, hexponent, hcarry]
      refine ⟨rfl, ?_, by norm_num⟩
      simp only [Binary.value, Bool.false_eq_true, if_false, one_mul, add_zero]
      rw [zpow_add_one₀ (by norm_num)]
      push_cast
      ring
    · have hmod : (k * 2 ^ 52 + m) % 2 ^ 52 = m - 2 ^ 52 := by omega
      have hdiv : (k * 2 ^ 52 + m) / 2 ^ 52 = k + 1 := by omega
      have hexponent : ((k + 1 : ℕ) : ℤ) - 1075 = (k : ℤ) - 1074 := by omega
      have hmantissa : 2 ^ 52 + (m - 2 ^ 52) = m := by omega
      rw [hmod, hdiv, hexponent, hmantissa]
      simp [Binary.value]

end FloatShape

/-! ## Rounding -/

namespace Decimal

/-- A rounded quotient is a half away at most, and it is even where it is a half away. -/
theorem roundDiv_spec (n : ℕ) {d : ℕ} (hd : 0 < d) :
    2 * n ≤ 2 * (roundDiv n d * d) + d ∧ 2 * (roundDiv n d * d) ≤ 2 * n + d ∧
      (2 * n = 2 * (roundDiv n d * d) + d ∨ 2 * (roundDiv n d * d) = 2 * n + d →
        roundDiv n d % 2 = 0) := by
  have hdiv : n / d * d + n % d = n := Nat.div_add_mod' n d
  have hmod : n % d < d := Nat.mod_lt n hd
  have hnext : (n / d + 1) * d = n / d * d + d := Nat.succ_mul (n / d) d
  unfold roundDiv
  dsimp only
  split
  · omega
  · rw [hnext]
    omega

theorem abs_roundDiv_sub (n : ℕ) {d : ℕ} (hd : 0 < d) :
    |(roundDiv n d : ℚ) - n / d| ≤ 1 / 2 ∧
      (|(roundDiv n d : ℚ) - n / d| = 1 / 2 → roundDiv n d % 2 = 0) := by
  obtain ⟨hle, hge, heven⟩ := roundDiv_spec n hd
  have hdq : (0 : ℚ) < d := Nat.cast_pos.mpr hd
  generalize roundDiv n d = r at hle hge heven ⊢
  have hle' : 2 * (n : ℚ) ≤ 2 * (r * d) + d := by exact_mod_cast hle
  have hge' : 2 * (r * d : ℚ) ≤ 2 * n + d := by exact_mod_cast hge
  have hn : (n : ℚ) = n / d * d := by field_simp
  rw [hn] at hle' hge'
  generalize (n : ℚ) / d = t at hn hle' hge' ⊢
  have hlow : t ≤ r + 1 / 2 := le_of_mul_le_mul_right (by linarith) hdq
  have hhigh : r ≤ t + 1 / 2 := le_of_mul_le_mul_right (by linarith) hdq
  refine ⟨abs_le.mpr ⟨by linarith, by linarith⟩, fun hhalf => heven ?_⟩
  rcases eq_or_eq_neg_of_abs_eq hhalf with h | h
  · right
    have hr : (r : ℚ) = t + 1 / 2 := by linarith
    have : (2 * (r * d) : ℚ) = 2 * n + d := by
      rw [hn, hr]
      ring
    exact_mod_cast this
  · left
    have hr : (r : ℚ) = t - 1 / 2 := by linarith
    have : (2 * n : ℚ) = 2 * (r * d) + d := by
      rw [hn, hr]
      ring
    exact_mod_cast this

/-- A whole number that a number is a half away from at most, with an even one where it is a half
away, is the nearest one. -/
theorem nearest_of_half {r : ℕ} {t : ℚ} (hhalf : |(r : ℚ) - t| ≤ 1 / 2)
    (heven : |(r : ℚ) - t| = 1 / 2 → r % 2 = 0) (k : ℤ) :
    |(r : ℚ) - t| ≤ |k - t| ∧ (k ≠ r → |k - t| = |r - t| → r % 2 = 0) := by
  by_cases hk : k = r
  · subst hk
    exact ⟨le_refl _, fun hne => absurd rfl hne⟩
  · have hint : 1 ≤ |k - (r : ℤ)| := Int.one_le_abs (sub_ne_zero.mpr hk)
    have hone : (1 : ℚ) ≤ |(k : ℚ) - r| := by exact_mod_cast hint
    have htriangle : |(k : ℚ) - r| ≤ |k - t| + |r - t| := by
      rw [abs_sub_comm (r : ℚ) t]
      exact abs_sub_le _ _ _
    exact ⟨by linarith, fun _ heq => heven (by linarith)⟩

end Decimal

/-! ## The exponent of a quotient -/

/-- A power with a sign in its exponent, as a quotient of powers without. -/
theorem zpow_eq_div (b : ℚ) (e : ℤ) : b ^ e = b ^ e.toNat / b ^ (-e).toNat := by
  rcases le_total 0 e with he | he
  · obtain ⟨n, rfl⟩ := Int.eq_ofNat_of_zero_le he
    simp
  · obtain ⟨n, hn⟩ := Int.eq_ofNat_of_zero_le (neg_nonneg.mpr he)
    obtain rfl : e = -(n : ℤ) := by omega
    simp

namespace Decimal

variable {n d : ℕ}

theorem scaled_eq (n d : ℕ) (e : ℤ) :
    ((n * Nat.pow 2 (-e).toNat : ℕ) : ℚ) / ((d * Nat.pow 2 e.toNat : ℕ) : ℚ) =
      n / d / 2 ^ e := by
  rw [zpow_eq_div]
  simp only [Nat.pow_eq]
  push_cast
  rw [div_div_eq_mul_div, div_mul_eq_mul_div, div_div]

/-- A quotient is as great as the power of two that its logarithm says, and less than the next
one. -/
theorem floorLog2_spec (hn : 0 < n) (hd : 0 < d) :
    (2 : ℚ) ^ floorLog2 n d ≤ n / d ∧ (n : ℚ) / d < 2 ^ (floorLog2 n d + 1) := by
  have hdq : (0 : ℚ) < d := Nat.cast_pos.mpr hd
  have hn1 : (2 : ℚ) ^ (n.log2 : ℤ) ≤ n := by exact_mod_cast Nat.log2_self_le hn.ne'
  have hn2 : (n : ℚ) < 2 ^ ((n.log2 : ℤ) + 1) := by exact_mod_cast Nat.lt_log2_self
  have hd1 : (2 : ℚ) ^ (d.log2 : ℤ) ≤ d := by exact_mod_cast Nat.log2_self_le hd.ne'
  have hd2 : (d : ℚ) < 2 ^ ((d.log2 : ℤ) + 1) := by exact_mod_cast Nat.lt_log2_self
  have hlow : (2 : ℚ) ^ ((n.log2 : ℤ) - d.log2 - 1) ≤ n / d := by
    rw [le_div_iff₀ hdq]
    calc (2 : ℚ) ^ ((n.log2 : ℤ) - d.log2 - 1) * d
        ≤ 2 ^ ((n.log2 : ℤ) - d.log2 - 1) * 2 ^ ((d.log2 : ℤ) + 1) := by gcongr
      _ = 2 ^ (n.log2 : ℤ) := by
        rw [← zpow_add₀ two_ne_zero]
        congr 1
        omega
      _ ≤ n := hn1
  have hhigh : (n : ℚ) / d < 2 ^ ((n.log2 : ℤ) - d.log2 + 1) := by
    rw [div_lt_iff₀ hdq]
    calc (n : ℚ) < 2 ^ ((n.log2 : ℤ) + 1) := hn2
      _ = 2 ^ ((n.log2 : ℤ) - d.log2 + 1) * 2 ^ (d.log2 : ℤ) := by
        rw [← zpow_add₀ two_ne_zero]
        congr 1
        omega
      _ ≤ 2 ^ ((n.log2 : ℤ) - d.log2 + 1) * d := by gcongr
  have htest (g : ℤ) : d * Nat.pow 2 g.toNat ≤ n * Nat.pow 2 (-g).toNat ↔
      (2 : ℚ) ^ g ≤ n / d := by
    rw [zpow_eq_div, div_le_div_iff₀ (by positivity) hdq, mul_comm (2 ^ _ : ℚ)]
    simp only [Nat.pow_eq]
    exact_mod_cast Iff.rfl
  unfold floorLog2
  dsimp only
  split
  · rename_i hle
    exact ⟨(htest _).mp hle, hhigh⟩
  · rename_i hgt
    refine ⟨hlow, ?_⟩
    rw [sub_add_cancel]
    exact not_le.mp fun hle => hgt ((htest _).mpr hle)

/-- With its exponent a quotient has 53 bits before the point, fewer only where the exponent is the
least one. -/
theorem floatExponent_spec (hn : 0 < n) (hd : 0 < d) :
    (floatExponent n d ≠ -1074 → 2 ^ 52 * 2 ^ floatExponent n d ≤ (n : ℚ) / d) ∧
      (n : ℚ) / d < 2 ^ 53 * 2 ^ floatExponent n d := by
  obtain ⟨hlow, hhigh⟩ := floorLog2_spec hn hd
  have hmerge (j : ℕ) (e : ℤ) : (2 : ℚ) ^ j * 2 ^ e = 2 ^ ((j : ℤ) + e) := by
    rw [zpow_add₀ two_ne_zero, zpow_natCast]
  rw [hmerge, hmerge]
  unfold floatExponent
  constructor
  · intro hne
    have heq : max (floorLog2 n d - 52) (-1074) = floorLog2 n d - 52 := by omega
    rw [heq]
    refine le_trans (le_of_eq ?_) hlow
    congr 1
    omega
  · refine lt_of_lt_of_le hhigh (zpow_le_zpow_right₀ (by norm_num) ?_)
    omega

end Decimal

/-! ## The nearest float -/

/-- A power of two is a whole number of powers that are not above it. -/
theorem exists_two_zpow_eq {e f : ℤ} (he : e ≤ f) : ∃ n : ℕ, (2 : ℚ) ^ f = 2 ^ n * 2 ^ e := by
  obtain ⟨n, hn⟩ := Int.eq_ofNat_of_zero_le (sub_nonneg.mpr he)
  refine ⟨n, ?_⟩
  rw [← zpow_natCast, ← zpow_add₀ two_ne_zero]
  congr 1
  omega

/-- The value of a finite float is a whole number of any unit that is not above its own. -/
theorem Binary.exists_value_eq (c : Binary) {e : ℤ} (he : e ≤ c.exponent) :
    ∃ k : ℤ, c.value = k * 2 ^ e := by
  obtain ⟨n, hpow⟩ := exists_two_zpow_eq he
  refine ⟨(if c.negative then -1 else 1) * (c.mantissa * 2 ^ n), ?_⟩
  rw [Binary.value, hpow]
  push_cast
  ring

/-- A float with a lesser unit lies below all that have a full mantissa of a greater one. -/
theorem Binary.Legal.value_lt {c : Binary} (hc : c.Legal) {e : ℤ} (he : c.exponent < e) :
    c.value < 2 ^ 52 * 2 ^ e := by
  have hmantissa : (c.mantissa : ℚ) < 2 ^ 53 := by exact_mod_cast hc.mantissa_lt
  calc c.value ≤ c.mantissa * 2 ^ c.exponent := by
        unfold Binary.value
        have hnonneg : (0 : ℚ) ≤ c.mantissa * 2 ^ c.exponent := by positivity
        split <;> linarith
    _ < 2 ^ 53 * 2 ^ c.exponent := by gcongr
    _ ≤ 2 ^ 53 * 2 ^ (e - 1) := by
        gcongr
        · norm_num
        · omega
    _ = 2 ^ 52 * 2 ^ e := by
        rw [zpow_sub_one₀ two_ne_zero]
        ring

/-- A finite float without a sign that is the nearest one to a number: no finite float is nearer,
and none that is as near has another value unless the mantissa is even. -/
structure Binary.NearestTo (b : Binary) (q : ℚ) : Prop where
  positive : b.negative = false
  nearest : ∀ y c, FloatShape.of y = .finite c → |b.value - q| ≤ |c.value - q|
  even : ∀ y c, FloatShape.of y = .finite c → c.value ≠ b.value → |c.value - q| = |b.value - q| →
    b.mantissa % 2 = 0

/-- The numbers whose nearest float would be infinite are those from here on: the middle between the
greatest finite float and the power of two behind it. -/
def floatLimit : ℚ := (2 ^ 54 - 1) * 2 ^ 970

/-- A number that is not negative, and the float that it is rounded to. -/
structure RoundsTo (q : ℚ) (x : Float) : Prop where
  inRange : q < floatLimit
  nearest : ∃ b, FloatShape.of x = .finite b ∧ b.NearestTo q

/-! ## No two floats are the nearest one -/

namespace Binary

variable {b c : Binary}

theorem value_of_positive (hb : b.negative = false) : b.value = b.mantissa * 2 ^ b.exponent := by
  simp [value, hb]

/-- A full mantissa of a greater unit makes a greater value. -/
theorem Legal.value_lt_value (hb : b.Legal) (hc : c.Legal) (hpositive : c.negative = false)
    (he : b.exponent < c.exponent) : b.value < c.value := by
  have hfull := hc.full (by have := hb.least_le; omega)
  have hfull' : (2 : ℚ) ^ 52 ≤ c.mantissa := by exact_mod_cast hfull
  calc b.value < 2 ^ 52 * 2 ^ c.exponent := hb.value_lt he
    _ ≤ c.mantissa * 2 ^ c.exponent := by gcongr
    _ = c.value := (value_of_positive hpositive).symm

theorem Legal.eq_of_value_eq (hb : b.Legal) (hc : c.Legal) (hbp : b.negative = false)
    (hcp : c.negative = false) (h : b.value = c.value) : b = c := by
  have hexponent : b.exponent = c.exponent := by
    rcases lt_trichotomy b.exponent c.exponent with hlt | heq | hgt
    · exact absurd h (hb.value_lt_value hc hcp hlt).ne
    · exact heq
    · exact absurd h (hc.value_lt_value hb hbp hgt).ne'
  rw [value_of_positive hbp, value_of_positive hcp, hexponent] at h
  have hmantissa : (b.mantissa : ℚ) = c.mantissa :=
    mul_right_cancel₀ (zpow_ne_zero _ two_ne_zero) h
  cases b
  cases c
  simp_all

/-- Behind a finite float there is another one, unless there is none above. -/
theorem Legal.exists_next (hb : b.Legal) (hc : c.Legal) (hbp : b.negative = false)
    (hcp : c.negative = false) (h : b.value < c.value) :
    ∃ x z, FloatShape.of x = .finite z ∧ z.value = (b.mantissa + 1 : ℕ) * 2 ^ b.exponent := by
  have hleast := hb.least_le
  obtain ⟨k, hk⟩ := Int.eq_ofNat_of_zero_le (show 0 ≤ b.exponent + 1074 by omega)
  have hmantissa := hb.mantissa_lt
  have hgreatest := hb.le_greatest
  have hexponent : (k : ℤ) - 1074 = b.exponent := by omega
  have hfull : k ≠ 0 → 2 ^ 52 ≤ b.mantissa := fun hne => hb.full (by omega)
  have hfinite : k * 2 ^ 52 + (b.mantissa + 1) < Decimal.infiniteBits := by
    rw [Decimal.infiniteBits_eq]
    by_contra hgreat
    -- Otherwise all bits of the float are set, and nothing is above it.
    have hlast : b.exponent = 971 ∧ b.mantissa = 2 ^ 53 - 1 := by omega
    have hle : c.value ≤ b.value := by
      have hcm : c.mantissa ≤ 2 ^ 53 - 1 := by have := hc.mantissa_lt; omega
      have hcm' : (c.mantissa : ℚ) ≤ (2 ^ 53 - 1 : ℕ) := by exact_mod_cast hcm
      rw [value_of_positive hbp, value_of_positive hcp, hlast.1, hlast.2]
      gcongr
      · norm_num
      · exact hc.le_greatest
    exact absurd h (not_lt.mpr hle)
  obtain ⟨z, hz, -, hvalue, -⟩ := FloatShape.exists_of_mantissa (k := k) (m := b.mantissa + 1)
    (by omega) (fun hne => by have := hfull hne; omega) hfinite
  exact ⟨_, z, hz, by rw [hvalue, hexponent]⟩

/-- Of three values in a row the middle one is nearer than the outer ones, if those are equally
near. -/
theorem abs_sub_lt_of_between {u v w q : ℚ} (huv : u < v) (hvw : v < w)
    (heq : |w - q| = |u - q|) : |v - q| < |u - q| := by
  rcases abs_eq_abs.mp heq with h | h
  · linarith
  · rw [abs_sub_comm u q, abs_of_pos (show 0 < q - u by linarith)]
    exact abs_lt.mpr ⟨by linarith, by linarith⟩

/-- Two floats that are the nearest ones have one value. Otherwise both have even mantissas, and the
float behind the first one, whose mantissa is odd, lies between them. -/
theorem NearestTo.value_le {x y : Float} {q : ℚ} (hb : b.NearestTo q) (hc : c.NearestTo q)
    (hx : FloatShape.of x = .finite b) (hy : FloatShape.of y = .finite c) :
    c.value ≤ b.value := by
  refine not_lt.mp fun hlt => ?_
  have hbl := FloatShape.legal hx
  have hcl := FloatShape.legal hy
  have heq : |c.value - q| = |b.value - q| :=
    le_antisymm (hc.nearest x b hx) (hb.nearest y c hy)
  have hbeven := hb.even y c hy hlt.ne' heq
  have hceven := hc.even x b hx hlt.ne heq.symm
  have he : b.exponent ≤ c.exponent := not_lt.mp fun hgt =>
    absurd hlt (hcl.value_lt_value hbl hb.positive hgt).le.not_gt
  obtain ⟨n, hpow⟩ := exists_two_zpow_eq he
  have hunit : (0 : ℚ) < 2 ^ b.exponent := by positivity
  have hcvalue : c.value = (c.mantissa * 2 ^ n : ℕ) * 2 ^ b.exponent := by
    rw [value_of_positive hc.positive, hpow]
    push_cast
    ring
  have hbvalue := value_of_positive hb.positive
  obtain ⟨w, z, hw, hz⟩ := hbl.exists_next hcl hb.positive hc.positive hlt
  have hbetween : b.mantissa + 1 ≤ c.mantissa * 2 ^ n := by
    rw [hbvalue, hcvalue] at hlt
    exact_mod_cast lt_of_mul_lt_mul_right hlt hunit.le
  have hzc : z.value ≤ c.value := by
    rw [hz, hcvalue]
    exact mul_le_mul_of_nonneg_right (by exact_mod_cast hbetween) hunit.le
  have hbz : b.value < z.value := by
    rw [hz, hbvalue]
    exact mul_lt_mul_of_pos_right (by push_cast; linarith) hunit
  have hsame : z.value = c.value := by
    refine le_antisymm hzc (not_lt.mp fun hzlt => ?_)
    exact absurd (hb.nearest w z hw) (abs_sub_lt_of_between hbz hzlt heq).not_ge
  rw [hz, hcvalue] at hsame
  have hnext : b.mantissa + 1 = c.mantissa * 2 ^ n := by
    exact_mod_cast mul_right_cancel₀ hunit.ne' hsame
  have hodd : (c.mantissa * 2 ^ n) % 2 = 0 := by rw [Nat.mul_mod, hceven, zero_mul, Nat.zero_mod]
  omega

end Binary

namespace FloatShape

theorem ofBits_inj {bits bits' : UInt64} {b : Binary} (h : ofBits bits = .finite b)
    (h' : ofBits bits' = .finite b) : bits = bits' := by
  have hpow (n : ℕ) : Nat.pow 2 n = 2 ^ n := rfl
  have hlt := bits.toNat_lt
  have hlt' := bits'.toNat_lt
  apply UInt64.toNat_inj.mp
  unfold ofBits at h h'
  simp only [hpow] at h h'
  split at h
  · split at h <;> cases h
  split at h'
  · split at h' <;> cases h'
  split at h <;> split at h' <;> cases h <;>
    · simp only [finite.injEq, Binary.mk.injEq, decide_eq_decide] at h'
      omega

theorem of_inj {x y : Float} {b : Binary} (hx : FloatShape.of x = .finite b)
    (hy : FloatShape.of y = .finite b) : x = y := by
  have hbits : x.toBits = y.toBits := ofBits_inj hx hy
  obtain ⟨⟨bx, hbx⟩⟩ := x
  obtain ⟨⟨by', hby⟩⟩ := y
  cases (show bx = by' from hbits)
  rfl

end FloatShape

/-- A number is rounded to one float. -/
theorem RoundsTo.unique {q : ℚ} {x y : Float} (hx : RoundsTo q x) (hy : RoundsTo q y) : x = y := by
  obtain ⟨-, b, hb, hbq⟩ := hx
  obtain ⟨-, c, hc, hcq⟩ := hy
  have hvalue : b.value = c.value :=
    le_antisymm (hcq.value_le hbq hc hb) (hbq.value_le hcq hb hc)
  cases (FloatShape.legal hb).eq_of_value_eq (FloatShape.legal hc) hbq.positive hcq.positive hvalue
  exact FloatShape.of_inj hb hc

namespace Decimal

variable {n d : ℕ}

/-- Rounding in units of `2 ^ e` gives the nearest float where the mantissa is full, or no unit is
less. A float of a lesser unit is less than all mantissas that are full, and so farther away. -/
theorem nearest_on_grid {q : ℚ} {e : ℤ} {m : ℕ} (hfull : e ≠ -1074 → 2 ^ 52 * 2 ^ e ≤ q)
    (hround : ∀ k : ℤ, |(m : ℚ) - q / 2 ^ e| ≤ |k - q / 2 ^ e| ∧
      (k ≠ m → |k - q / 2 ^ e| = |m - q / 2 ^ e| → m % 2 = 0))
    {c : Binary} (hc : c.Legal) :
    |m * 2 ^ e - q| ≤ |c.value - q| ∧
      (c.value ≠ m * 2 ^ e → |c.value - q| = |m * 2 ^ e - q| → m % 2 = 0) := by
  have hunit : (0 : ℚ) < 2 ^ e := by positivity
  have hscale (r : ℚ) : |r * 2 ^ e - q| = |r - q / 2 ^ e| * 2 ^ e := by
    rw [← abs_of_pos hunit, ← abs_mul, abs_of_pos hunit, sub_mul, div_mul_cancel₀ _ hunit.ne']
  by_cases he : e ≤ c.exponent
  · obtain ⟨k, hk⟩ := c.exists_value_eq he
    obtain ⟨hle, heven⟩ := hround k
    rw [hk, hscale, hscale]
    refine ⟨mul_le_mul_of_nonneg_right hle hunit.le, fun hne heq => heven ?_ ?_⟩
    · rintro rfl
      exact hne (by push_cast; rfl)
    · exact mul_right_cancel₀ hunit.ne' heq
  · have hless : c.exponent < e := not_le.mp he
    have hlow := hfull (by have := hc.least_le; omega)
    have hbelow := hc.value_lt hless
    have hnear : |m * 2 ^ e - q| ≤ q - 2 ^ 52 * 2 ^ e := by
      have hle := mul_le_mul_of_nonneg_right (hround (2 ^ 52)).1 hunit.le
      rw [← hscale, ← hscale] at hle
      calc |m * 2 ^ e - q| ≤ |((2 ^ 52 : ℤ) : ℚ) * 2 ^ e - q| := hle
        _ = |q - 2 ^ 52 * 2 ^ e| := by
          rw [abs_sub_comm]
          push_cast
          rfl
        _ = q - 2 ^ 52 * 2 ^ e := abs_of_nonneg (sub_nonneg.mpr hlow)
    have hfar : |c.value - q| = q - c.value := by
      rw [abs_sub_comm, abs_of_nonneg (by linarith)]
    exact ⟨by linarith, fun _ heq => by linarith⟩

/-- The mantissa that a quotient is rounded to. -/
def floatMantissa (n d : ℕ) : ℕ :=
  roundDiv (n * Nat.pow 2 (-floatExponent n d).toNat) (d * Nat.pow 2 (floatExponent n d).toNat)

/-- The exponent of a quotient, counted from the least one. -/
def floatSteps (n d : ℕ) : ℕ := (floatExponent n d + 1074).toNat

theorem floatBits_eq (n d : ℕ) :
    floatBits n d = floatSteps n d * 2 ^ 52 + floatMantissa n d := rfl

theorem floatSteps_eq (n d : ℕ) : (floatSteps n d : ℤ) - 1074 = floatExponent n d := by
  unfold floatSteps floatExponent
  omega

theorem abs_floatMantissa_sub (n : ℕ) (hd : 0 < d) :
    |(floatMantissa n d : ℚ) - n / d / 2 ^ floatExponent n d| ≤ 1 / 2 ∧
      (|(floatMantissa n d : ℚ) - n / d / 2 ^ floatExponent n d| = 1 / 2 →
        floatMantissa n d % 2 = 0) := by
  have hpos : 0 < d * Nat.pow 2 (floatExponent n d).toNat :=
    Nat.mul_pos hd (Nat.pow_pos (by decide))
  rw [← scaled_eq]
  exact abs_roundDiv_sub _ hpos

/-- A mantissa is full, unless the exponent is the least one, and has 54 bits only where it is
rounded up to the next power of two. -/
theorem floatMantissa_bounds (hn : 0 < n) (hd : 0 < d) :
    (floatSteps n d ≠ 0 → 2 ^ 52 ≤ floatMantissa n d) ∧ floatMantissa n d ≤ 2 ^ 53 := by
  have hunit : (0 : ℚ) < 2 ^ floatExponent n d := by positivity
  obtain ⟨hlow, hhigh⟩ := floatExponent_spec hn hd
  obtain ⟨hhalf, -⟩ := abs_floatMantissa_sub n hd
  obtain ⟨hbelow, habove⟩ := abs_le.mp hhalf
  have hsteps := floatSteps_eq n d
  constructor
  · intro hne
    have hq := (le_div_iff₀ hunit).mpr (hlow (by omega))
    have hlt : ((2 ^ 52 : ℕ) : ℚ) < ((floatMantissa n d + 1 : ℕ) : ℚ) := by
      push_cast
      linarith
    exact Nat.lt_succ_iff.mp (Nat.cast_lt.mp hlt)
  · have hq := (div_lt_iff₀ hunit).mpr hhigh
    have hlt : ((floatMantissa n d : ℕ) : ℚ) < ((2 ^ 53 + 1 : ℕ) : ℚ) := by
      push_cast
      linarith
    exact Nat.lt_succ_iff.mp (Nat.cast_lt.mp hlt)

/-- The bits of a quotient are those of its nearest float, if they are not too great. -/
theorem nearestTo_of_floatBits (hn : 0 < n) (hd : 0 < d) (hfinite : floatBits n d < infiniteBits) :
    ∃ b, FloatShape.of (Float.ofBits (.ofNat (floatBits n d))) = .finite b ∧
      b.NearestTo (n / d) := by
  obtain ⟨hfull, hle⟩ := floatMantissa_bounds hn hd
  obtain ⟨b, hb, hpositive, hvalue, hparity⟩ := FloatShape.exists_of_mantissa hle hfull hfinite
  obtain ⟨hhalf, heven⟩ := abs_floatMantissa_sub n hd
  rw [floatSteps_eq] at hvalue
  have hgrid {y : Float} {c : Binary} (hc : FloatShape.of y = .finite c) :=
    nearest_on_grid (floatExponent_spec hn hd).1 (nearest_of_half hhalf heven)
      (FloatShape.legal hc)
  rw [← hvalue] at hgrid
  refine ⟨b, hb, hpositive, fun y c hc => (hgrid hc).1, fun y c hc hne heq => ?_⟩
  rw [hparity]
  exact (hgrid hc).2 hne heq

theorem two_zpow_971 : (2 : ℚ) ^ (971 : ℤ) = 2 ^ 970 * 2 := by
  rw [show (971 : ℤ) = (970 : ℕ) + 1 from rfl, zpow_add_one₀ two_ne_zero, zpow_natCast]

/-- In the last binade a quotient is below the limit if its mantissa is not rounded up to the next
power of two. The middle between the two goes up: the mantissa below is odd. -/
theorem floatMantissa_lt_iff (hd : 0 < d) (he : floatExponent n d = 971) :
    floatMantissa n d < 2 ^ 53 ↔ (n : ℚ) / d < floatLimit := by
  have hlimit : floatLimit = (2 ^ 53 - 1 / 2) * 2 ^ (971 : ℤ) := by
    rw [two_zpow_971, floatLimit]
    generalize (2 : ℚ) ^ 970 = u
    ring
  obtain ⟨hhalf, heven⟩ := abs_floatMantissa_sub n hd
  rw [he] at hhalf heven
  rw [hlimit, ← div_lt_iff₀ (by positivity)]
  generalize (n : ℚ) / d / 2 ^ (971 : ℤ) = t at hhalf heven ⊢
  generalize floatMantissa n d = m at hhalf heven ⊢
  obtain ⟨hbelow, habove⟩ := abs_le.mp hhalf
  constructor
  · intro hm
    have hmq : (m : ℚ) + 1 ≤ 2 ^ 53 := by exact_mod_cast hm
    rcases lt_or_eq_of_le (show t ≤ 2 ^ 53 - 1 / 2 by linarith) with hlt | heq
    · exact hlt
    · have hlast : (m : ℚ) + 1 = 2 ^ 53 := by linarith
      have hodd : m + 1 = 2 ^ 53 := by exact_mod_cast hlast
      have htie : |(m : ℚ) - t| = 1 / 2 := by
        rw [show (m : ℚ) - t = -(1 / 2) by linarith]
        norm_num
      have htwo := heven htie
      omega
  · intro ht
    have hmq : (m : ℚ) < ((2 ^ 53 : ℕ) : ℚ) := by
      push_cast
      linarith
    exact Nat.cast_lt.mp hmq

/-- The bits are those of a finite float up to the limit, and not from there on. -/
theorem floatBits_lt_iff (hn : 0 < n) (hd : 0 < d) :
    floatBits n d < infiniteBits ↔ (n : ℚ) / d < floatLimit := by
  obtain ⟨hfull, hle⟩ := floatMantissa_bounds hn hd
  obtain ⟨hlow, hhigh⟩ := floatExponent_spec hn hd
  have hsteps := floatSteps_eq n d
  rw [floatBits_eq, infiniteBits_eq]
  rcases lt_trichotomy (floatSteps n d) 2045 with hless | hlast | hmore
  · have hunit : (2 : ℚ) ^ floatExponent n d ≤ 2 ^ (970 : ℤ) :=
      zpow_le_zpow_right₀ (by norm_num) (by omega)
    have hq : (n : ℚ) / d < floatLimit :=
      calc (n : ℚ) / d < 2 ^ 53 * 2 ^ floatExponent n d := hhigh
        _ ≤ 2 ^ 53 * 2 ^ (970 : ℤ) := by gcongr
        _ < floatLimit := by
          unfold floatLimit
          norm_num
    exact iff_of_true (by omega) hq
  · rw [← floatMantissa_lt_iff hd (by omega)]
    omega
  · have hunit : (2 : ℚ) ^ (972 : ℤ) ≤ 2 ^ floatExponent n d :=
      zpow_le_zpow_right₀ (by norm_num) (by omega)
    have hq : floatLimit ≤ (n : ℚ) / d :=
      calc floatLimit ≤ 2 ^ 54 * 2 ^ 970 := by
            unfold floatLimit
            gcongr
            norm_num
        _ = 2 ^ 52 * 2 ^ (972 : ℤ) := by
            rw [show (972 : ℤ) = 971 + 1 from rfl, zpow_add_one₀ two_ne_zero, two_zpow_971]
            generalize (2 : ℚ) ^ 970 = u
            ring
        _ ≤ 2 ^ 52 * 2 ^ floatExponent n d := by gcongr
        _ ≤ (n : ℚ) / d := hlow (by omega)
    have hm := hfull (by omega)
    exact iff_of_false (by omega) (not_lt.mpr hq)

/-- The nearest float is found, if there is one. -/
theorem nearestFloat?_cases (hn : 0 < n) (hd : 0 < d) :
    (∃ x, nearestFloat? n d = some x ∧ RoundsTo (n / d) x) ∨
      (nearestFloat? n d = none ∧ floatLimit ≤ (n : ℚ) / d) := by
  unfold nearestFloat?
  dsimp only
  split
  · rename_i hfinite
    exact .inl ⟨_, rfl, (floatBits_lt_iff hn hd).mp hfinite,
      nearestTo_of_floatBits hn hd hfinite⟩
  · rename_i hgreat
    exact .inr ⟨rfl, not_lt.mp fun hq => hgreat ((floatBits_lt_iff hn hd).mpr hq)⟩

/-! ## Decimals -/

/-- The number that a decimal is. -/
def value (d : Decimal) : ℚ := d.coefficient * 10 ^ d.exponent

theorem value_eq_div (d : Decimal) : d.value =
    ((d.coefficient * Nat.pow 10 d.exponent.toNat : ℕ) : ℚ) /
      ((Nat.pow 10 (-d.exponent).toNat : ℕ) : ℚ) := by
  rw [value, zpow_eq_div]
  simp only [Nat.pow_eq]
  push_cast
  rw [mul_div_assoc]

/-- The length of its coefficient tells how great a decimal is. -/
theorem value_bounds (d : Decimal) (hc : d.coefficient ≠ 0) :
    (10 : ℚ) ^ (d.exponent + ((Nat.repr d.coefficient).length : ℤ) - 1) ≤ d.value ∧
      d.value < 10 ^ (d.exponent + ((Nat.repr d.coefficient).length : ℤ)) := by
  obtain ⟨l, hl⟩ : ∃ l, (Nat.repr d.coefficient).length = l + 1 :=
    Nat.exists_eq_succ_of_ne_zero Nat.length_repr_pos.ne'
  have hhigh : d.coefficient < 10 ^ (l + 1) := (Nat.length_repr_le_iff (by omega)).mp hl.le
  have hlow : 10 ^ l ≤ d.coefficient := by
    cases l with
    | zero => exact Nat.one_le_iff_ne_zero.mpr hc
    | succ l =>
      refine not_lt.mp fun hlt => ?_
      have hle := (Nat.length_repr_le_iff (by omega)).mpr hlt
      omega
  have hunit : (0 : ℚ) < 10 ^ d.exponent := by positivity
  have hmerge (j : ℕ) : (10 : ℚ) ^ j * 10 ^ d.exponent = 10 ^ ((j : ℤ) + d.exponent) := by
    rw [zpow_add₀ (by norm_num), zpow_natCast]
  have hfirst : d.exponent + ((l + 1 : ℕ) : ℤ) - 1 = (l : ℤ) + d.exponent := by omega
  have hsecond : d.exponent + ((l + 1 : ℕ) : ℤ) = ((l + 1 : ℕ) : ℤ) + d.exponent := by omega
  rw [hl, hfirst, hsecond, ← hmerge, ← hmerge, value]
  exact ⟨mul_le_mul_of_nonneg_right (by exact_mod_cast hlow) hunit.le,
    mul_lt_mul_of_pos_right (by exact_mod_cast hhigh) hunit⟩

/-- Zero is the float nearest to numbers that are at most half of the least float. -/
theorem roundsTo_zero {q : ℚ} (hq : 0 ≤ q) (hless : q < 2 ^ (-1075 : ℤ)) : RoundsTo q 0.0 := by
  have hdouble : (2 : ℚ) ^ (-1074 : ℤ) = 2 ^ (-1075 : ℤ) * 2 := by
    rw [← zpow_add_one₀ two_ne_zero]
    rfl
  have hvalue : (Binary.mk false 0 (-1074)).value = 0 := by simp [Binary.value]
  refine ⟨?_, ⟨false, 0, -1074⟩, rfl, rfl, fun y c hc => ?_, fun _ _ _ _ _ => rfl⟩
  · calc q < 2 ^ (-1075 : ℤ) := hless
      _ ≤ 2 ^ (970 : ℤ) := zpow_le_zpow_right₀ (by norm_num) (by norm_num)
      _ ≤ floatLimit := by
        rw [floatLimit, ← zpow_natCast]
        refine le_mul_of_one_le_left (by positivity) (by norm_num)
  · rw [hvalue, zero_sub, abs_neg, abs_of_nonneg hq]
    obtain ⟨k, hk⟩ := c.exists_value_eq (FloatShape.legal hc).least_le
    by_cases hzero : k = 0
    · rw [hk, hzero]
      simp [abs_of_nonneg hq]
    · have hone : (1 : ℚ) ≤ |(k : ℚ)| := by exact_mod_cast Int.one_le_abs hzero
      have hunit : (0 : ℚ) < 2 ^ (-1074 : ℤ) := by positivity
      have hfar : 2 ^ (-1074 : ℤ) ≤ |c.value| := by
        rw [hk, abs_mul, abs_of_pos hunit]
        exact le_mul_of_one_le_left hunit.le hone
      have htriangle := abs_sub_abs_le_abs_sub c.value q
      rw [abs_of_nonneg hq] at htriangle
      linarith

theorem ten_zpow_le : (10 : ℚ) ^ (-331 : ℤ) ≤ 2 ^ (-1075 : ℤ) := by
  have hpow : 2 ^ 1075 ≤ 10 ^ 331 := by decide +kernel
  rw [zpow_neg, zpow_neg]
  exact inv_anti₀ (by positivity) (by exact_mod_cast hpow)

theorem floatLimit_le_ten_zpow : floatLimit ≤ (10 : ℚ) ^ (310 : ℤ) := by
  have hpow : 2 ^ 54 * 2 ^ 970 ≤ 10 ^ 310 := by decide +kernel
  calc floatLimit ≤ 2 ^ 54 * 2 ^ 970 := by
        unfold floatLimit
        gcongr
        norm_num
    _ ≤ (10 : ℚ) ^ (310 : ℤ) := by exact_mod_cast hpow

/-- A decimal is read as its nearest float. There is none only for decimals that are too great. -/
theorem toFloat?_cases (d : Decimal) :
    (∃ x, d.toFloat? = some x ∧ RoundsTo d.value x) ∨
      (d.toFloat? = none ∧ floatLimit ≤ d.value) := by
  unfold toFloat?
  dsimp only
  by_cases hc : d.coefficient = 0
  · rw [if_pos (.inl hc)]
    refine .inl ⟨_, rfl, ?_⟩
    rw [value, hc, Nat.cast_zero, zero_mul]
    exact roundsTo_zero le_rfl (by positivity)
  obtain ⟨hlow, hhigh⟩ := d.value_bounds hc
  generalize d.exponent + ((Nat.repr d.coefficient).length : ℤ) = size at hlow hhigh ⊢
  split
  · rename_i hsmall
    refine .inl ⟨_, rfl, roundsTo_zero (by unfold value; positivity) ?_⟩
    calc d.value < 10 ^ size := hhigh
      _ ≤ 10 ^ (-331 : ℤ) := zpow_le_zpow_right₀ (by norm_num) (by omega)
      _ ≤ 2 ^ (-1075 : ℤ) := ten_zpow_le
  split
  · refine .inr ⟨rfl, ?_⟩
    calc floatLimit ≤ (10 : ℚ) ^ (310 : ℤ) := floatLimit_le_ten_zpow
      _ ≤ 10 ^ (size - 1) := zpow_le_zpow_right₀ (by norm_num) (by omega)
      _ ≤ d.value := hlow
  · rw [value_eq_div]
    exact nearestFloat?_cases
      (Nat.mul_pos (Nat.pos_of_ne_zero hc) (Nat.pow_pos (by decide))) (Nat.pow_pos (by decide))

/-- A decimal is read as a float exactly where that is the one that it is rounded to. -/
theorem toFloat?_eq_some_iff {d : Decimal} {x : Float} :
    d.toFloat? = some x ↔ RoundsTo d.value x := by
  rcases d.toFloat?_cases with ⟨y, hy, hround⟩ | ⟨hnone, hgreat⟩
  · rw [hy, Option.some.injEq]
    exact ⟨fun heq => heq ▸ hround, hround.unique⟩
  · rw [hnone]
    exact ⟨nofun, fun h => absurd h.inRange (not_lt.mpr hgreat)⟩

end Decimal

end ScriptLang
