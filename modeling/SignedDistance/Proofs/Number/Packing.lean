import SignedDistance.Proofs.Number.Arithmetic

set_option autoImplicit false

/-! # Packing floats

Packing a canonical float into bits loses nothing, unless its exponent is greater than the format
has room for; then the float becomes an infinity. -/

namespace SignedDistance

open Float.Model (Format UnpackedFloat totalExponent)
open Float.Model.UnpackedFloat

variable {S : Format}

/-! ## The greatest exponent -/

/-- The least power of two that is too large for the format. -/
noncomputable def limit (S : Format) : ℝ := (2 ^ (S.exponentBias + 1) : ℕ)

/-- What the format can hold of a number: infinities take the place of what is too large. -/
noncomputable def fit (S : Format) (y : EReal) : EReal :=
  if (limit S : EReal) ≤ y then ⊤ else if y ≤ (-limit S : ℝ) then ⊥ else y

theorem limit_pos (S : Format) : 0 < limit S := Nat.cast_pos.2 (Nat.two_pow_pos _)

theorem fit_mono (S : Format) : Monotone (fit S) := by
  intro y z hle
  unfold fit
  split_ifs with hy hz hz' hy' hz hz hz hz'
  · exact le_rfl
  · exact absurd (hy.trans hle) hz
  · exact absurd (hy.trans hle) hz
  · exact le_top
  · exact bot_le
  · exact bot_le
  · exact le_top
  · exact absurd (hle.trans hz') hy'
  · exact hle

theorem fit_eq_self {y : EReal} (h₁ : (-limit S : ℝ) < y) (h₂ : y < limit S) : fit S y = y := by
  rw [fit, if_neg (not_le.2 h₂), if_neg (not_le.2 h₁)]

theorem fit_coe {x : ℝ} (h : |x| < limit S) : fit S x = x := by
  obtain ⟨hlower, hupper⟩ := abs_lt.1 h
  exact fit_eq_self (EReal.coe_lt_coe_iff.2 hlower) (EReal.coe_lt_coe_iff.2 hupper)

theorem fit_zero (S : Format) : fit S 0 = 0 :=
  fit_eq_self (EReal.coe_lt_coe_iff.2 (neg_lt_zero.2 (limit_pos S)))
    (EReal.coe_lt_coe_iff.2 (limit_pos S))

theorem fit_neg (S : Format) (y : EReal) : fit S (-y) = -fit S y := by
  have hlimit : ((-limit S : ℝ) : EReal) < limit S :=
    EReal.coe_lt_coe_iff.2 (neg_lt_self (limit_pos S))
  have hle : (limit S : EReal) ≤ -y ↔ y ≤ (-limit S : ℝ) := by
    rw [EReal.coe_neg, EReal.le_neg]
  have hge : -y ≤ (-limit S : ℝ) ↔ (limit S : EReal) ≤ y := by
    rw [EReal.coe_neg, EReal.neg_le_neg_iff]
  unfold fit
  simp only [hle, hge]
  split_ifs with hbelow habove
  · exact absurd (habove.trans hbelow) (not_le.2 hlimit)
  · exact EReal.neg_bot.symm
  · exact EReal.neg_top.symm
  · rfl

namespace Unpacked

variable {u v : UnpackedFloat} {y z : EReal} {s : Sign} {m : ℕ} {e : ℤ} {hm : 0 < m}

theorem minExponent_eq (S : Format) :
    S.minExponent = 1 - S.exponentBias - S.mantissaBitsWithoutImplicit := by
  have hpow : 1 ≤ 2 ^ (S.exponentBits - 1) := Nat.one_le_two_pow
  rw [Format.minExponent, Format.exponentBias, Format.mantissaBits]
  push_cast [hpow]
  ring

theorem two_pow_exponentBits (S : Format) : 2 ^ S.exponentBits = 2 * S.exponentBias + 2 := by
  have hpow : 1 ≤ 2 ^ (S.exponentBits - 1) := Nat.one_le_two_pow
  have hbits : S.exponentBits = (S.exponentBits - 1) + 1 := by
    have := S.he
    omega
  rw [Format.exponentBias]
  conv_lhs => rw [hbits, pow_succ]
  omega

theorem two_le_exponentBits (hbias : 0 < S.exponentBias) : 2 ≤ S.exponentBits := by
  by_contra hlt
  have hzero : S.exponentBits - 1 = 0 := by omega
  rw [Format.exponentBias, hzero] at hbias
  exact absurd hbias (lt_irrefl _)

/-- The exponents that there is room for are those of the numbers below the limit. -/
theorem CanonicalDigits.lt_limit_iff (h : CanonicalDigits S m e) (hm : 0 < m)
    (hbias : 0 < S.exponentBias) :
    (m * 2 ^ e : ℝ) < limit S ↔ e ≤ S.exponentBias - S.mantissaBitsWithoutImplicit := by
  have hsplit : limit S = 2 ^ S.mantissaBitsWithoutImplicit *
      2 ^ (S.exponentBias - S.mantissaBitsWithoutImplicit + 1 : ℤ) := by
    rw [limit, Nat.cast_pow, Nat.cast_two, ← zpow_natCast, ← zpow_natCast,
      ← zpow_add₀ two_ne_zero]
    congr 1
    push_cast
    ring
  rw [hsplit]
  constructor
  · intro hlt
    by_contra hle
    have hmin := minExponent_eq S
    have hfull : (2 : ℝ) ^ S.mantissaBitsWithoutImplicit ≤ m := mod_cast h.le hm (by omega)
    exact absurd hlt (not_lt.2 (mul_le_mul hfull (zpow_le_zpow_right₀ one_le_two (by omega))
      (by positivity) (by positivity)))
  · intro hle
    have hdigits : (m : ℝ) < 2 ^ S.mantissaBits := mod_cast h.lt
    calc (m * 2 ^ e : ℝ) < 2 ^ S.mantissaBits * 2 ^ e :=
          mul_lt_mul_of_pos_right hdigits (by positivity)
      _ = 2 ^ S.mantissaBitsWithoutImplicit * 2 ^ (e + 1) := by
          rw [Format.mantissaBits, pow_add, zpow_add₀ two_ne_zero]
          ring
      _ ≤ _ := mul_le_mul_of_nonneg_left (zpow_le_zpow_right₀ one_le_two (by omega))
          (by positivity)

theorem CanonicalDigits.fit_eq (h : CanonicalDigits S m e) (hm : 0 < m)
    (hbias : 0 < S.exponentBias) (s : Sign) :
    fit S (s.apply m * 2 ^ e : ℝ) =
      if e ≤ S.exponentBias - S.mantissaBitsWithoutImplicit then
        ((s.apply m * 2 ^ e : ℝ) : EReal)
      else value (.infinity s) := by
  have hpos : (0 : ℝ) < m * 2 ^ e := by positivity
  have hlimit := limit_pos S
  have hiff := h.lt_limit_iff hm hbias
  rw [← signed_mul_zpow]
  split_ifs with he
  · have hlt := hiff.2 he
    refine fit_eq_self ?_ ?_ <;> rw [EReal.coe_lt_coe_iff] <;> cases s <;> simp only [signed] <;>
      linarith
  · have hle := not_lt.1 (mt hiff.1 he)
    cases s with
    | negative =>
      rw [signed, fit, if_neg, if_pos, value_bot]
      · exact EReal.coe_le_coe_iff.2 (neg_le_neg hle)
      · rw [EReal.coe_le_coe_iff]
        linarith
    | positive =>
      rw [signed, fit, if_pos, value_top]
      exact EReal.coe_le_coe_iff.2 hle

/-! ## Bits -/

theorem neg_one_ne_zero_exponent (S : Format) : (0#S.exponentBits) ≠ -1#S.exponentBits := by
  intro h
  have hpow := Nat.one_lt_two_pow S.he.ne'
  have := congrArg BitVec.toNat h
  rw [BitVec.neg_one_eq_allOnes, BitVec.toNat_allOnes, BitVec.toNat_zero] at this
  omega

theorem unpack_packedInfinity (S : Format) (s : Sign) :
    unpack S (packedInfinity S s) = .infinity s := by
  rw [unpack, packedInfinity]
  simp

theorem isNaN_unpack_pack (S : Format) {u : UnpackedFloat} (h : u = .notANumber) :
    (unpack S (pack S u)).isNaN = true := by
  rw [h, pack, unpack_packedNaN]
  rfl

theorem isNaN_of_isNaN_unpack_pack (h : (unpack S (pack S u)).isNaN = false) : u.isNaN = false := by
  rcases u with s | _ | s | ⟨s, m, e, hm⟩
  · rfl
  · exact (isNaN_unpack_pack S rfl).symm.trans h
  · rfl
  · rfl

/-- There is no way back to a finite float from what is none. -/
theorem isFinite_of_isFinite_unpack_pack (h : (unpack S (pack S u)).isFinite = true) :
    u.isFinite = true := by
  rcases u with s | _ | s | ⟨s, m, e, hm⟩
  · rw [pack, unpack_packedInfinity] at h
    cases h
  · rw [pack, unpack_packedNaN] at h
    cases h
  · rfl
  · rfl

theorem toNat_one_append {w : ℕ} (b : BitVec w) : (1#1 ++ b).toNat = 2 ^ w + b.toNat := by
  rw [BitVec.toNat_append, ← Nat.shiftLeft_add_eq_or_of_lt b.isLt, Nat.shiftLeft_eq]
  simp

/-- Digits come back with the first one put before the others. -/
theorem toNat_one_append_ofNat {w : ℕ} (hm : 0 < m) (hlog : m.log2 = w) :
    (1#1 ++ BitVec.ofNat w m).toNat = m := by
  have hlower := Nat.log2_self_le hm.ne'
  have hupper := Nat.lt_log2_self (n := m)
  rw [hlog] at hlower hupper
  rw [toNat_one_append, BitVec.toNat_ofNat, Nat.mod_eq_sub_mod hlower, Nat.mod_eq_of_lt (by omega)]
  omega

theorem ofNat_ne_zero {w n : ℕ} (hn : 0 < n) (hlt : n < 2 ^ w) : BitVec.ofNat w n ≠ 0#w := by
  intro heq
  have := congrArg BitVec.toNat heq
  rw [BitVec.toNat_ofNat, Nat.mod_eq_of_lt hlt, BitVec.toNat_zero] at this
  omega

theorem ofNat_ne_neg_one {w n : ℕ} (hlt : n + 1 < 2 ^ w) : BitVec.ofNat w n ≠ -1#w := by
  intro heq
  have := congrArg BitVec.toNat heq
  rw [BitVec.toNat_ofNat, Nat.mod_eq_of_lt (by omega), BitVec.neg_one_eq_allOnes,
    BitVec.toNat_allOnes] at this
  omega

/-- An exponent that is neither zero nor all ones is stored as it is, and the first digit is left
    out. -/
theorem unpack_packComponents_normal {biased : ℕ} (h₀ : 0 < biased)
    (h₁ : biased + 1 < 2 ^ S.exponentBits) (hm : 0 < m)
    (hlog : m.log2 = S.mantissaBitsWithoutImplicit) (s : Sign) :
    unpack S (packComponents S s (BitVec.ofNat _ biased) (BitVec.ofNat _ m)) =
      .finite s m (biased - (S.exponentBias + S.mantissaBitsWithoutImplicit)) hm := by
  have hexponent : (BitVec.ofNat S.exponentBits biased).toNat = biased := by
    rw [BitVec.toNat_ofNat, Nat.mod_eq_of_lt (by omega)]
  rw [unpack]
  simp only [unpackMantissa_packComponents, unpackExponent_packComponents,
    unpackSign_packComponents, Sign.ofBitVec_toBitVec, hexponent, if_neg (ofNat_ne_neg_one h₁),
    if_neg (ofNat_ne_zero h₀ (Nat.lt_of_succ_lt h₁)), toNat_one_append_ofNat hm hlog]

/-- With an exponent of zero all digits are stored, and the exponent is the smallest. -/
theorem unpack_packComponents_subnormal (hm : 0 < m)
    (hlt : m < 2 ^ S.mantissaBitsWithoutImplicit) (s : Sign) :
    unpack S (packComponents S s 0#_ (BitVec.ofNat _ m)) = .finite s m S.minExponent hm := by
  have hmantissa : (BitVec.ofNat S.mantissaBitsWithoutImplicit m).toNat = m := by
    rw [BitVec.toNat_ofNat, Nat.mod_eq_of_lt hlt]
  rw [unpack]
  simp only [unpackMantissa_packComponents, unpackExponent_packComponents,
    unpackSign_packComponents, Sign.ofBitVec_toBitVec, if_neg (neg_one_ne_zero_exponent S),
    if_true, dif_neg (ofNat_ne_zero hm hlt), hmantissa, BitVec.toNat_zero, minExponent_eq]
  congr 1
  push_cast
  ring

/-- Only the smallest exponent has digits to spare. -/
theorem CanonicalDigits.eq_minExponent (h : CanonicalDigits S m e) (hm : 0 < m)
    (hlt : m < 2 ^ S.mantissaBitsWithoutImplicit) : e = S.minExponent := by
  by_contra hne
  exact absurd (h.le hm hne) (not_le.2 hlt)

/-- **Packing loses nothing of a canonical float whose exponent there is room for.** -/
theorem unpack_pack_finite (h : CanonicalDigits S m e) (hm : 0 < m)
    (he : e ≤ S.exponentBias - S.mantissaBitsWithoutImplicit) (s : Sign) :
    unpack S (pack S (.finite s m e hm)) = .finite s m e hm := by
  have hmin := minExponent_eq S
  have hle := h.minExponent_le
  have hbits := two_pow_exponentBits S
  have hlog := (Nat.log2_lt hm.ne').2 h.lt
  obtain ⟨biased, hbiased⟩ : ∃ biased : ℕ,
      (e + S.exponentBias + S.mantissaBitsWithoutImplicit : ℤ) = biased :=
    ⟨_, (Int.toNat_of_nonneg (by omega)).symm⟩
  rw [pack, hbiased, Int.toNat_natCast, if_neg (by omega)]
  rw [Format.mantissaBits] at hlog
  split_ifs with hnormal
  · rw [Format.mantissaBits] at hnormal
    rw [unpack_packComponents_normal (by omega) (by omega) hm (by omega)]
    congr 1
    omega
  · have hdigits : m < 2 ^ S.mantissaBitsWithoutImplicit := by
      rw [Format.mantissaBits] at hnormal
      rw [← Nat.log2_lt hm.ne']
      omega
    rw [unpack_packComponents_subnormal hm hdigits]
    congr 1
    exact (h.eq_minExponent hm hdigits).symm

theorem pack_finite_of_lt (he : S.exponentBias - S.mantissaBitsWithoutImplicit < e) (hm : 0 < m)
    (s : Sign) : pack S (.finite s m e hm) = packedInfinity S s := by
  have hbits := two_pow_exponentBits S
  rw [pack, if_pos (by omega)]

/-- Packing treats both signs alike. -/
theorem unpack_pack_neg (h : Canonical S u) :
    unpack S (pack S u.neg) = (unpack S (pack S u)).neg := by
  rcases u with s | _ | s | ⟨s, m, e, hm⟩
  · simp only [neg, pack, unpack_packedInfinity]
  · simp only [neg, pack, unpack_packedNaN]
  · simp only [neg, pack, unpack_packedZero]
  · by_cases he : e ≤ S.exponentBias - S.mantissaBitsWithoutImplicit
    · simp only [neg, unpack_pack_finite h hm he]
    · simp only [neg, pack_finite_of_lt (not_le.1 he), unpack_packedInfinity]

/-- **A packed float stands for what the format can hold of the number.** -/
theorem holds_unpack_pack (hbias : 0 < S.exponentBias) (h : Holds S u y) :
    Holds S (unpack S (pack S u)) (fit S y) := by
  obtain ⟨hcanonical, hnan, rfl⟩ := h
  rcases u with (_ | _) | _ | s | ⟨s, m, e, hm⟩
  · rw [pack, unpack_packedInfinity, value_bot, fit, if_neg (by simp), if_pos bot_le]
    exact Holds.bot S
  · rw [pack, unpack_packedInfinity, value_top, fit, if_pos le_top]
    exact Holds.top S
  · exact absurd hnan Bool.noConfusion
  · rw [pack, unpack_packedZero, value_zero, fit_zero]
    exact Holds.zero S s
  · rw [value_finite, CanonicalDigits.fit_eq hcanonical hm hbias]
    split_ifs with he
    · rw [unpack_pack_finite hcanonical hm he]
      exact ⟨hcanonical, rfl, rfl⟩
    · rw [pack_finite_of_lt (not_le.1 he), unpack_packedInfinity]
      exact ⟨trivial, rfl, rfl⟩

/-- **Packing loses nothing of a canonical float that there is room for.** -/
theorem unpack_pack (hbias : 0 < S.exponentBias) (hu : Canonical S u)
    (hfit : fit S (value u) = value u) : unpack S (pack S u) = u := by
  rcases u with s | _ | s | ⟨s, m, e, hm⟩
  · exact unpack_packedInfinity S s
  · exact unpack_packedNaN
  · exact unpack_packedZero
  · rw [value_finite, CanonicalDigits.fit_eq hu hm hbias] at hfit
    split_ifs at hfit with he
    · exact unpack_pack_finite hu hm he s
    · cases s with
      | negative => exact absurd hfit (EReal.bot_ne_coe _)
      | positive => exact absurd hfit (EReal.top_ne_coe _)

/-! ## Floats from bits -/

theorem canonicalDigits_of_log (hlog : m.log2 + 1 ≤ S.mantissaBits) (he : S.minExponent ≤ e)
    (hfull : m.log2 + 1 = S.mantissaBits ∨ e = S.minExponent) : CanonicalDigits S m e := by
  rw [CanonicalDigits, Format.targetExponent, totalExponent]
  omega

theorem canonical_unpack (S : Format) (b : BitVec S.numBits) : Canonical S (unpack S b) := by
  have hmin := minExponent_eq S
  have hlt := (unpackMantissa b).isLt
  have hbits : S.mantissaBits = 1 + S.mantissaBitsWithoutImplicit := rfl
  rw [unpack]
  split_ifs with h₁ h₂ h₃ h₄
  · trivial
  · trivial
  · trivial
  · -- the smallest exponent
    have hne : (unpackMantissa b).toNat ≠ 0 := fun h => h₄ (BitVec.eq_of_toNat_eq h)
    have hlog := (Nat.log2_lt hne).2 hlt
    have hzero : (unpackExponent b).toNat = 0 := by rw [h₃, BitVec.toNat_zero]
    exact canonicalDigits_of_log (by omega) (by omega) (.inr (by omega))
  · have hlog : (1#1 ++ unpackMantissa b).toNat.log2 = S.mantissaBitsWithoutImplicit := by
      rw [toNat_one_append, Nat.log2_eq_iff (by positivity)]
      omega
    have hpos : (unpackExponent b).toNat ≠ 0 := fun h => h₃ (BitVec.eq_of_toNat_eq h)
    exact canonicalDigits_of_log (by omega) (by omega) (.inl (by omega))

/-- A float is within the reach of its format. -/
theorem holds_unpack {b : BitVec S.numBits} (h : (unpack S b).isNaN = false) :
    Holds S (unpack S b) (value (unpack S b)) :=
  ⟨canonical_unpack S b, h, rfl⟩

theorem fit_value_unpack (hbias : 0 < S.exponentBias) {b : BitVec S.numBits} (hb : S.Valid b) :
    fit S (value (unpack S b)) = value (unpack S b) := by
  by_cases h : (unpack S b).isNaN
  · rw [value_of_isNaN h, fit_zero]
  · have hfit := (holds_unpack_pack hbias (holds_unpack (Bool.eq_false_iff.2 h))).value
    rw [pack_unpack_of_valid hb (two_le_exponentBits hbias)] at hfit
    exact hfit.symm

end Unpacked

end SignedDistance
