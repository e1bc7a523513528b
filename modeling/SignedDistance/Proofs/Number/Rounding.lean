import SignedDistance.Proofs.Number.Value

set_option autoImplicit false

/-! # Rounding digits

A float operation computes digits of its exact result, together with an accuracy that tells what was
left off, and rounds them. The digits and their accuracy together know enough of the exact result:
rounding them gives the nearest number of the format. -/

namespace SignedDistance.Unpacked

open Float.Model (Format UnpackedFloat totalExponent)
open Float.Model.UnpackedFloat

variable {S : Format} {s : Sign} {m : ℕ} {e t : ℤ} {acc : Accuracy} {x : ℝ}

/-! ## Digits and their accuracy -/

/-- What digits and their accuracy tell of the exact number. -/
inductive Tells (m : ℕ) (x : ℝ) : Accuracy → Prop
  | exact (h : x = m) : Tells m x .exact
  | below (h₁ : m < x) (h₂ : x < m + 1 / 2) : Tells m x (.inexact .lt)
  | half (h : x = m + 1 / 2) : Tells m x (.inexact .eq)
  | above (h₁ : m + 1 / 2 < x) (h₂ : x < m + 1) : Tells m x (.inexact .gt)

theorem Tells.roundEven_eq (h : Tells m x acc) : roundEven x = acc.roundToNearestEven m := by
  have hnear {n : ℤ} (h₁ : n - 1 / 2 < x) (h₂ : x < n + 1 / 2) : roundEven x = n :=
    roundEven_eq_iff.2 (.inl (abs_lt.2 ⟨by linarith, by linarith⟩))
  cases h with
  | exact h =>
    rw [h]
    exact roundEven_intCast m
  | below h₁ h₂ =>
    exact hnear (by push_cast [Accuracy.roundToNearestEven]; linarith)
      (by push_cast [Accuracy.roundToNearestEven]; linarith)
  | half h =>
    -- a half goes to the one of `m` and `m + 1` that is even
    rw [h]
    refine roundEven_eq_iff.2 (.inr ⟨?_, Int.even_iff.2 ?_⟩)
    · rcases Nat.mod_two_eq_zero_or_one m with hmod | hmod
      all_goals
        rw [Accuracy.roundToNearestEven, hmod]
        push_cast
        norm_num
    · rw [Accuracy.roundToNearestEven]
      omega
  | above h₁ h₂ =>
    exact hnear (by push_cast [Accuracy.roundToNearestEven]; linarith)
      (by push_cast [Accuracy.roundToNearestEven]; linarith)

/-- What extended digits tell of the exact number. -/
def TellsExtended (em : ExtendedMantissa) (x : ℝ) : Prop := Tells em.mantissa x em.accuracy

theorem TellsExtended.of_tells (h : Tells m x acc) :
    TellsExtended (.ofMantissaAndAccuracy m acc) x := by
  rcases acc with _ | (_ | _ | _) <;> exact h

theorem TellsExtended.roundEven_eq {em : ExtendedMantissa} (h : TellsExtended em x) :
    roundEven x = em.roundedMantissa :=
  Tells.roundEven_eq h

/-- One digit less is known of half the number. -/
theorem TellsExtended.shiftRightOne {em : ExtendedMantissa} (h : TellsExtended em x) :
    TellsExtended em.shiftRightOne (x / 2) := by
  obtain ⟨m, roundBit, stickyBit⟩ := em
  have hdigit : (m : ℝ) = 2 * (m / 2 : ℕ) + (m % 2 : ℕ) := mod_cast (Nat.div_add_mod m 2).symm
  rw [TellsExtended, ExtendedMantissa.shiftRightOne]
  -- the last digit becomes the first one that is left off
  rcases Nat.mod_two_eq_zero_or_one m with hmod | hmod <;> rw [hmod] at hdigit ⊢ <;>
    push_cast at hdigit <;> cases roundBit <;> cases stickyBit <;> cases h
  · exact .exact (by linarith)
  · exact .below (by linarith) (by linarith)
  · exact .below (by linarith) (by linarith)
  · exact .below (by linarith) (by linarith)
  · exact .half (by linarith)
  · exact .above (by linarith) (by linarith)
  · exact .above (by linarith) (by linarith)
  · exact .above (by linarith) (by linarith)

theorem TellsExtended.shiftRight {em : ExtendedMantissa} (h : TellsExtended em x) (n : ℕ) :
    TellsExtended (em >>> n) (x / 2 ^ n) := by
  induction n with
  | zero =>
    rw [pow_zero, div_one]
    exact h
  | succ n ih =>
    rw [pow_succ, ← div_div]
    exact ih.shiftRightOne

/-! ## The digits of a number -/

/-- The exact number that lies behind digits with an exponent has as many digits as they have. -/
theorem totalExponent_eq_log (hm : 0 < m) (e : ℤ) :
    totalExponent m e = Int.log 2 (m * 2 ^ e : ℝ) + 1 := by
  have hpos : (0 : ℝ) < m * 2 ^ e := by positivity
  have hlower : (2 : ℝ) ^ (m.log2 + e : ℤ) ≤ m * 2 ^ e := by
    rw [zpow_add₀ two_ne_zero, zpow_natCast]
    have hself : (2 : ℝ) ^ m.log2 ≤ m := mod_cast Nat.log2_self_le hm.ne'
    exact mul_le_mul_of_nonneg_right hself (by positivity)
  have hupper : (m * 2 ^ e : ℝ) < 2 ^ (m.log2 + 1 + e : ℤ) := by
    rw [zpow_add₀ two_ne_zero]
    have hself : (m : ℝ) < 2 ^ (m.log2 + 1 : ℤ) := mod_cast Nat.lt_log2_self
    exact mul_lt_mul_of_pos_right hself (by positivity)
  have hlog₁ := (Int.zpow_le_iff_le_log one_lt_two hpos).1 hlower
  have hlog₂ := (Int.lt_zpow_iff_log_lt one_lt_two hpos).1 hupper
  rw [totalExponent]
  omega

theorem quantum_mul_zpow (S : Format) (hm : 0 < m) (e : ℤ) :
    quantum S (m * 2 ^ e) = S.targetExponent (totalExponent m e) := by
  have hpos : (0 : ℝ) < m * 2 ^ e := by positivity
  rw [quantum, abs_of_pos hpos, totalExponent_eq_log hm]

theorem Tells.le (h : Tells m x acc) : (m : ℝ) ≤ x := by
  cases h <;> linarith

theorem Tells.lt (h : Tells m x acc) : x < m + 1 := by
  cases h <;> linarith

/-- Digits that go as far as the last one that may be kept say which one that is. -/
theorem Tells.targetExponent_eq (hx : 0 < x) (h : Tells m (x / 2 ^ e) acc)
    (he : e ≤ quantum S x) : S.targetExponent (totalExponent m e) = quantum S x := by
  have hpos : (0 : ℝ) < 2 ^ e := by positivity
  have hlower : m * 2 ^ e ≤ x := (le_div_iff₀ hpos).1 h.le
  have hupper : x < (m + 1) * 2 ^ e := (div_lt_iff₀ hpos).1 h.lt
  have hbits : 0 < S.mantissaBits := Nat.lt_add_right _ Nat.one_pos
  rcases Nat.eq_zero_or_pos m with rfl | hm
  · -- no digit at all is left of a number below the smallest exponent
    have hlog : Int.log 2 x < e := by
      refine (Int.lt_zpow_iff_log_lt one_lt_two hx).1 ?_
      simpa using hupper
    rw [quantum, abs_of_pos hx, Format.targetExponent] at he ⊢
    rw [totalExponent, Format.targetExponent, Nat.log2_zero]
    omega
  · have hlog : Int.log 2 x = Int.log 2 (m * 2 ^ e : ℝ) := by
      refine le_antisymm (Int.lt_add_one_iff.1 ?_) (Int.log_mono_right (by positivity) hlower)
      refine (Int.lt_zpow_iff_log_lt one_lt_two hx).1 (hupper.trans_le ?_)
      have hdigits : (m + 1 : ℝ) ≤ 2 ^ (m.log2 + 1 : ℤ) := by
        exact_mod_cast Nat.lt_log2_self (n := m)
      have htotal := totalExponent_eq_log hm e
      rw [totalExponent] at htotal
      calc (m + 1) * 2 ^ e ≤ 2 ^ (m.log2 + 1 : ℤ) * (2 : ℝ) ^ e :=
            mul_le_mul_of_nonneg_right hdigits hpos.le
        _ = 2 ^ (Int.log 2 (m * 2 ^ e : ℝ) + 1) := by
            rw [← zpow_add₀ two_ne_zero, htotal]
    rw [totalExponent_eq_log hm, quantum, abs_of_pos hx, hlog]

/-- A number with a sign. -/
def signed : Sign → ℝ → ℝ
  | .negative, x => -x
  | .positive, x => x

theorem signed_mul_zpow (s : Sign) (m : ℕ) (e : ℤ) :
    signed s (m * 2 ^ e) = s.apply m * 2 ^ e := by
  cases s with
  | negative => rw [signed, Sign.apply, ← neg_mul]; norm_cast
  | positive => rw [signed, Sign.apply]; norm_cast

theorem nearest_signed (S : Format) (s : Sign) (x : ℝ) :
    nearest S (signed s x) = signed s (nearest S x) := by
  cases s with
  | negative => exact nearest_neg x
  | positive => rfl

/-! ## Shifts -/

/-- The last digit that may be kept is that of the number, or one digit more of it is needed. -/
theorem shiftToExponent_tells (h : Tells m (x / 2 ^ e) acc) (he : e ≤ t) :
    TellsExtended (shiftToExponent m e acc t).1 (x / 2 ^ t) ∧
      (shiftToExponent m e acc t).2 = t := by
  have hshift : t = e + (t - e).toNat := by omega
  refine ⟨?_, hshift.symm⟩
  have htells := (TellsExtended.of_tells h).shiftRight (t - e).toNat
  rwa [div_div, ← zpow_natCast, ← zpow_add₀ two_ne_zero, ← hshift] at htells

theorem shiftRight_zero (n : ℕ) :
    (⟨0, false, false⟩ : ExtendedMantissa) >>> n = ⟨0, false, false⟩ := by
  induction n with
  | zero => rfl
  | succ n ih =>
    change ExtendedMantissa.shiftRightOne ((⟨0, false, false⟩ : ExtendedMantissa) >>> n) = _
    rw [ih]
    rfl

/-- The second shift of a rounding only makes up for a digit that was carried over. -/
theorem shiftToTargetExponent_carry (ht : S.minExponent ≤ t) (hm : m ≤ 2 ^ S.mantissaBits)
    (hfull : t ≠ S.minExponent → 2 ^ S.mantissaBitsWithoutImplicit ≤ m) (hpos : 0 < m) :
    ∃ m' t', shiftToTargetExponent S m t .exact = (⟨m', false, false⟩, t') ∧
      CanonicalDigits S m' t' ∧ (m' * 2 ^ t' : ℝ) = m * 2 ^ t ∧ 0 < m' := by
  rcases hm.lt_or_eq with hlt | rfl
  · have hlog : m.log2 < S.mantissaBits := (Nat.log2_lt hpos.ne').2 hlt
    have hcanonical : S.targetExponent (totalExponent m t) = t := by
      rw [Format.targetExponent, totalExponent]
      rcases eq_or_ne t S.minExponent with rfl | hne
      · omega
      · have := (Nat.le_log2 hpos.ne').2 (hfull hne)
        rw [Format.mantissaBits] at hlog ⊢
        omega
    refine ⟨m, t, ?_, hcanonical, rfl, hpos⟩
    rw [shiftToTargetExponent, hcanonical, shiftToExponent, sub_self, Int.toNat_zero,
      Int.ofNat_zero, add_zero]
    rfl
  · have htarget : S.targetExponent (totalExponent (2 ^ S.mantissaBits) t) = t + 1 := by
      rw [Format.targetExponent, totalExponent, Nat.log2_two_pow]
      omega
    have hbits : S.mantissaBits = S.mantissaBitsWithoutImplicit + 1 := Nat.add_comm _ _
    have hhalf : 2 ^ S.mantissaBits / 2 = 2 ^ S.mantissaBitsWithoutImplicit := by
      rw [hbits, Nat.pow_succ, Nat.mul_div_cancel _ two_pos]
    refine ⟨2 ^ S.mantissaBitsWithoutImplicit, t + 1, ?_, ?_, ?_, Nat.two_pow_pos _⟩
    · have heven : 2 ^ S.mantissaBits % 2 = 0 := by
        rw [hbits, Nat.pow_succ, Nat.mul_mod_left]
      rw [shiftToTargetExponent, htarget, shiftToExponent, add_sub_cancel_left]
      change (ExtendedMantissa.shiftRightOne ⟨2 ^ S.mantissaBits, false, false⟩, t + 1) = _
      rw [ExtendedMantissa.shiftRightOne, hhalf, heven]
      rfl
    · rw [CanonicalDigits, Format.targetExponent, totalExponent, Nat.log2_two_pow, hbits]
      push_cast
      omega
    · rw [hbits, zpow_add₀ two_ne_zero]
      push_cast
      ring

/-! ## Rounding -/

/-- **Rounding digits gives the nearest number**, if the last digit that there is comes no earlier
    than the last one that may be kept. -/
theorem holds_roundWithAccuracy (hx : 0 < x) (htells : Tells m (x / 2 ^ e) acc)
    (he : e ≤ quantum S x) (s : Sign) :
    Holds S (roundWithAccuracy S s m e acc) (nearest S (signed s x) : ℝ) := by
  obtain ⟨hextended, hexponent⟩ := shiftToExponent_tells htells he
  have hpos : (0 : ℝ) < 2 ^ quantum S x := by positivity
  rw [roundWithAccuracy, shiftToTargetExponent, htells.targetExponent_eq hx he]
  generalize shiftToExponent m e acc (quantum S x) = first at hextended hexponent
  obtain ⟨em, t⟩ := first
  subst hexponent
  -- the digits that are kept are those of the nearest number
  have hround : roundEven (x / 2 ^ quantum S x) = em.roundedMantissa := hextended.roundEven_eq
  have hnearest : nearest S x = em.roundedMantissa * 2 ^ quantum S x := by
    rw [nearest, hround, Int.cast_natCast]
  rw [nearest_signed, hnearest]
  dsimp only
  generalize em.roundedMantissa = r at hround
  rcases Nat.eq_zero_or_pos r with rfl | hr
  · have hshift : (shiftToTargetExponent S 0 (quantum S x) .exact).1 = ⟨0, false, false⟩ :=
      shiftRight_zero _
    rw [dif_pos (congrArg ExtendedMantissa.mantissa hshift), signed_mul_zpow]
    convert Holds.zero S s using 1
    cases s <;> simp [Sign.apply]
  · have hdigits := abs_digits_le S x
    have hfull := fun hne => le_digits (S := S) hx hne
    rw [hround] at hdigits hfull
    obtain ⟨m', t', hshift, hcanonical, hvalue, hm'⟩ :=
      shiftToTargetExponent_carry (minExponent_le_quantum S x)
        (by exact_mod_cast (le_abs_self _).trans hdigits)
        (fun hne => by exact_mod_cast hfull hne) hr
    rw [hshift, ← hvalue, signed_mul_zpow]
    dsimp only
    rw [dif_neg hm'.ne']
    exact Holds.finite hcanonical hm' s

/-- Digits with a greater exponent are first moved up. -/
theorem holds_round (hm : 0 < m) (e : ℤ) (s : Sign) :
    Holds S (UnpackedFloat.round S s m e) (nearest S (signed s (m * 2 ^ e)) : ℝ) := by
  rw [UnpackedFloat.round, decreaseExponent]
  generalize htarget : S.targetExponent (totalExponent m e) = t
  generalize hshift : (e - t).toNat = k
  dsimp only
  have hvalue : ((m <<< k : ℕ) * 2 ^ (e - k) : ℝ) = m * 2 ^ e := by
    rw [Nat.shiftLeft_eq, zpow_sub₀ two_ne_zero, zpow_natCast]
    push_cast
    field_simp
  have hpos : (0 : ℝ) < m * 2 ^ e := by positivity
  refine holds_roundWithAccuracy hpos ?_ ?_ s
  · rw [← hvalue, mul_div_cancel_right₀ _ (by positivity)]
    exact .exact rfl
  · rw [quantum_mul_zpow S hm, htarget]
    omega

theorem holds_normalize (n : ℤ) (e : ℤ) (s : Sign) :
    Holds S (UnpackedFloat.normalize S n e s) (nearest S (n * 2 ^ e) : ℝ) := by
  rw [UnpackedFloat.normalize]
  rcases lt_trichotomy n 0 with hlt | rfl | hlt
  · rw [compare_lt_iff_lt.2 hlt]
    have h := holds_round (S := S) (m := (-n).toNat) (by omega) e .negative
    rw [signed_mul_zpow, Sign.apply, Int.toNat_of_nonneg (by omega), neg_neg] at h
    exact h
  · rw [Int.cast_zero, zero_mul, nearest_zero]
    exact Holds.zero S s
  · rw [compare_gt_iff_gt.2 hlt]
    have h := holds_round (S := S) (m := n.toNat) (by omega) e .positive
    rw [signed_mul_zpow, Sign.apply, Int.toNat_of_nonneg (by omega)] at h
    exact h

end SignedDistance.Unpacked
