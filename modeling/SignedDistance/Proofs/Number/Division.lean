import SignedDistance.Proofs.Number.Arithmetic

set_option autoImplicit false

/-! # Quotients and square roots

A quotient or a square root has endlessly many digits. The operations compute its first digits and
an accuracy that tells what was left off, and there are enough of these digits to round: the last
one comes no earlier than the last one that may be kept. -/

namespace SignedDistance.Unpacked

open Float.Model (Format UnpackedFloat totalExponent)
open Float.Model.UnpackedFloat

variable {S : Format} {u v : UnpackedFloat} {m m' : ℕ} {e e' t : ℤ} {acc : Accuracy} {x x' : ℝ}

/-! ## Quotients -/

theorem targetExponent_mono (S : Format) : Monotone S.targetExponent := by
  intro n n' hle
  rw [Format.targetExponent, Format.targetExponent]
  omega

/-- The remainder of a division tells what is left off of the quotient. -/
theorem tells_quotient (m : ℕ) (hm' : 0 < m') :
    Tells (m / m') (m / m' : ℝ) (accuracyOfFraction (m % m') m') := by
  have hpos : (0 : ℝ) < m' := Nat.cast_pos.2 hm'
  have hdivision : (m : ℝ) = m' * (m / m' : ℕ) + (m % m' : ℕ) :=
    mod_cast (Nat.div_add_mod m m').symm
  have hquotient : (m / m' : ℝ) = (m / m' : ℕ) + (m % m' : ℕ) / m' := by
    rw [hdivision, add_div, mul_div_cancel_left₀ _ hpos.ne']
  have hlt : ((m % m' : ℕ) : ℝ) < m' := mod_cast Nat.mod_lt m hm'
  rw [hquotient]
  generalize m % m' = r at hlt
  rw [accuracyOfFraction]
  split_ifs with hr
  · exact .exact (by rw [hr, Nat.cast_zero, zero_div, add_zero])
  have hrest : (0 : ℝ) < r / m' := div_pos (Nat.cast_pos.2 (Nat.pos_of_ne_zero hr)) hpos
  rcases lt_trichotomy (2 * r) m' with h | h | h
  · have hhalf : (r / m' : ℝ) < 1 / 2 := by
      rw [div_lt_div_iff₀ hpos two_pos]
      exact_mod_cast (by omega : r * 2 < 1 * m')
    rw [compare_lt_iff_lt.2 h]
    exact .below (by linarith) (by linarith)
  · have hhalf : (r / m' : ℝ) = 1 / 2 := by
      rw [div_eq_div_iff hpos.ne' two_ne_zero]
      exact_mod_cast (by omega : r * 2 = 1 * m')
    rw [compare_eq_iff_eq.2 h]
    exact .half (by linarith)
  · have hhalf : (1 / 2 : ℝ) < r / m' := by
      rw [div_lt_div_iff₀ two_pos hpos]
      exact_mod_cast (by omega : 1 * m' < r * 2)
    have hone : (r / m' : ℝ) < 1 := (div_lt_one hpos).2 hlt
    rw [compare_gt_iff_gt.2 h]
    exact .above (by linarith) (by linarith)

/-- A quotient has as many digits before the point as its parts have, or one less. -/
theorem targetExponent_sub_le_quantum (S : Format) (hm : 0 < m) (hm' : 0 < m') (e e' : ℤ) :
    S.targetExponent (totalExponent m e - totalExponent m' e') ≤
      quantum S (m * 2 ^ e / (m' * 2 ^ e')) := by
  have hpos : (0 : ℝ) < m * 2 ^ e := by positivity
  have hpos' : (0 : ℝ) < m' * 2 ^ e' := by positivity
  have hlower := Int.zpow_log_le_self (b := 2) one_lt_two hpos
  have hupper := Int.lt_zpow_succ_log_self (b := 2) one_lt_two (m' * 2 ^ e' : ℝ)
  have hlog : Int.log 2 (m * 2 ^ e : ℝ) - (Int.log 2 (m' * 2 ^ e' : ℝ) + 1) ≤
      Int.log 2 (m * 2 ^ e / (m' * 2 ^ e') : ℝ) := by
    refine (Int.zpow_le_iff_le_log one_lt_two (div_pos hpos hpos')).1 ?_
    rw [zpow_sub₀ (Nat.cast_ne_zero.2 two_ne_zero)]
    exact div_le_div₀ hpos.le hlower hpos' hupper.le
  rw [quantum, abs_of_pos (div_pos hpos hpos'), totalExponent_eq_log hm, totalExponent_eq_log hm']
  exact targetExponent_mono S (by omega)

theorem signed_div (s s' : Sign) (x x' : ℝ) :
    signed (s / s') (x / x') = signed s x / signed s' x' := by
  cases s <;> cases s'
  · exact (neg_div_neg_eq x x').symm
  · exact (neg_div x' x).symm
  · exact (div_neg x).symm
  · rfl

theorem holds_div_finite (hm : 0 < m) (hm' : 0 < m') (e e' : ℤ) (s s' : Sign) :
    Holds S (div S (.finite s m e hm) (.finite s' m' e' hm'))
      (nearest S (s.apply m * 2 ^ e / (s'.apply m' * 2 ^ e')) : ℝ) := by
  have hquantum := targetExponent_sub_le_quantum S hm hm' e e'
  rw [div, divCore, ← signed_mul_zpow, ← signed_mul_zpow, ← signed_div]
  generalize S.targetExponent (totalExponent m e - totalExponent m' e') = target at hquantum
  generalize ht : min (e - e') target = t
  generalize hshift : (e - e' - t).toNat = k
  have hx : (0 : ℝ) < m * 2 ^ e / (m' * 2 ^ e') := by positivity
  have htells : Tells (m <<< k / m') (m * 2 ^ e / (m' * 2 ^ e') / 2 ^ t)
      (accuracyOfFraction (m <<< k % m') m') := by
    have hscale : (m * 2 ^ e / (m' * 2 ^ e') / 2 ^ t : ℝ) = (m <<< k : ℕ) / m' := by
      have hexponent : e = k + (e' + t) := by omega
      rw [hexponent, zpow_add₀ two_ne_zero, zpow_add₀ two_ne_zero, zpow_natCast, Nat.shiftLeft_eq]
      push_cast
      field_simp
    rw [hscale]
    exact tells_quotient _ hm'
  have hle : t ≤ quantum S (m * 2 ^ e / (m' * 2 ^ e')) := by omega
  exact holds_roundWithAccuracy hx htells hle (s / s')

/-- **A quotient is the number that is nearest to the exact one**, if the divisor is not zero. -/
theorem holds_div (hu : Holds S u x) (hv : Holds S v x') (hx' : x' ≠ 0) :
    Holds S (div S u v) (nearest S (x / x') : ℝ) := by
  obtain ⟨hucanonical, hunan, hx⟩ := hu
  obtain ⟨hvcanonical, hvnan, hvx'⟩ := hv
  rcases u with (_ | _) | _ | s | ⟨s, m, e, hm⟩ <;>
    rcases v with (_ | _) | _ | s' | ⟨s', m', e', hm'⟩
  all_goals first
    | exact absurd hunan Bool.noConfusion
    | exact absurd hvnan Bool.noConfusion
    | exact absurd hx (EReal.bot_ne_coe x)
    | exact absurd hx (EReal.top_ne_coe x)
    | exact absurd hvx' (EReal.bot_ne_coe x')
    | exact absurd hvx' (EReal.top_ne_coe x')
    | exact absurd (EReal.coe_eq_zero.1 hvx'.symm) hx'
    | skip
  case finite.finite =>
    rw [value_finite, EReal.coe_eq_coe_iff] at hx hvx'
    rw [← hx, ← hvx']
    exact holds_div_finite hm hm' e e' s s'
  case zero.finite =>
    rw [show x = 0 from EReal.coe_eq_zero.1 hx.symm, zero_div, nearest_zero]
    exact Holds.zero S (s / s')

theorem canonical_div (hu : Canonical S u) (hv : Canonical S v) : Canonical S (div S u v) := by
  by_cases hfinite : u.isFinite = true ∧ v.isFinite = true
  · obtain ⟨x, hx⟩ := exists_holds_of_isFinite hu hfinite.1
    obtain ⟨x', hx'⟩ := exists_holds_of_isFinite hv hfinite.2
    rcases eq_or_ne x' 0 with rfl | hne
    · obtain ⟨s', rfl⟩ := hx'.exists_eq_zero
      rcases u with _ | _ | s | ⟨s, m, e, hm⟩ <;> trivial
    · exact (holds_div hx hx' hne).canonical
  · rcases u with _ | _ | s | ⟨s, m, e, hm⟩ <;> rcases v with _ | _ | s' | ⟨s', m', e', hm'⟩ <;>
      first
      | trivial
      | exact absurd ⟨rfl, rfl⟩ hfinite

theorem exists_div_zero (h : u.isFinite = true) (hzero : ∀ s, u ≠ .zero s) (s : Sign) :
    ∃ t, div S u (.zero s) = .infinity t := by
  rcases u with _ | _ | s' | ⟨s', m, e, hm⟩
  · cases h
  · cases h
  · cases hzero s' rfl
  · exact ⟨_, rfl⟩

theorem div_of_isNaN (S : Format) (h : u.isNaN = true ∨ v.isNaN = true) :
    div S u v = .notANumber := by
  rcases u with (_ | _) | _ | s | ⟨s, m, e, hm⟩ <;>
    rcases v with (_ | _) | _ | s' | ⟨s', m', e', hm'⟩ <;>
    first
    | rfl
    | exact h.elim Bool.noConfusion Bool.noConfusion

/-- A part of infinity is infinity. -/
theorem top_div (S : Format) (hv : Holds S v x) (hx : 0 < x) :
    div S (.infinity .positive) v = .infinity .positive := by
  obtain ⟨-, hnan, hvalue⟩ := hv
  rcases v with (_ | _) | _ | s | ⟨_ | _, m, e, hm⟩
  · exact absurd hvalue (EReal.bot_ne_coe x)
  · exact absurd hvalue (EReal.top_ne_coe x)
  · exact absurd hnan Bool.noConfusion
  · exact absurd (EReal.coe_eq_zero.1 hvalue.symm) hx.ne'
  · have hneg := value_negative_neg m e hm
    rw [hvalue, EReal.coe_neg'] at hneg
    exact absurd hx hneg.not_gt
  · rfl

/-! ## Square roots -/

/-- The remainder of an integer square root tells what is left off of the root. It is never just
    a half. -/
theorem tells_sqrt (m : ℕ) :
    Tells m.sqrt √m (if m - m.sqrt * m.sqrt = 0 then .exact
      else .inexact (if m - m.sqrt * m.sqrt ≤ m.sqrt then .lt else .gt)) := by
  have hlower := Nat.sqrt_le m
  have hupper := Nat.lt_succ_sqrt m
  generalize m.sqrt = r at hlower hupper
  rw [Nat.succ_mul_succ] at hupper
  have habove {y : ℝ} (hy : 0 ≤ y) (h : y ^ 2 < m) : y < √m := Real.lt_sqrt_of_sq_lt h
  have hbelow {y : ℝ} (hy : 0 < y) (h : m < y ^ 2) : √m < y := (Real.sqrt_lt' hy).2 h
  have hr : (0 : ℝ) ≤ r := Nat.cast_nonneg r
  split_ifs with hexact hnear
  · have hsquare : (m : ℝ) = r ^ 2 := by exact_mod_cast (by rw [sq]; omega : m = r ^ 2)
    exact .exact (by rw [hsquare, Real.sqrt_sq hr])
  · have hlt : (r ^ 2 : ℝ) < m := by exact_mod_cast (by rw [sq]; omega : r ^ 2 < m)
    have hle : (m : ℝ) ≤ r ^ 2 + r := by exact_mod_cast (by rw [sq]; omega : m ≤ r ^ 2 + r)
    exact .below (habove hr hlt) (hbelow (by linarith) (by linarith))
  · have hle : (r ^ 2 + r + 1 : ℝ) ≤ m := by
      exact_mod_cast (by rw [sq]; omega : r ^ 2 + r + 1 ≤ m)
    have hlt : (m : ℝ) < r ^ 2 + r + r + 1 := by
      exact_mod_cast (by rw [sq]; omega : m < r ^ 2 + r + r + 1)
    exact .above (habove (by linarith) (by linarith)) (hbelow (by linarith) (by linarith))

/-- A square root has half as many digits before the point as the number has. -/
theorem targetExponent_half_le_quantum (S : Format) (hm : 0 < m) (e : ℤ) :
    S.targetExponent ((totalExponent m e + 1) / 2) ≤ quantum S √(m * 2 ^ e) := by
  have hpos : (0 : ℝ) < m * 2 ^ e := by positivity
  have hroot := Real.sqrt_pos.2 hpos
  rw [totalExponent_eq_log hm, quantum, abs_of_pos hroot]
  have hlower := Int.zpow_log_le_self (b := 2) one_lt_two hpos
  generalize Int.log 2 (m * 2 ^ e : ℝ) = l at hlower
  generalize hhalf : l / 2 = k
  have hlog : k ≤ Int.log 2 √(m * 2 ^ e : ℝ) := by
    refine (Int.zpow_le_iff_le_log one_lt_two hroot).1 (Real.le_sqrt_of_sq_le ?_)
    have hle : ((2 : ℝ) ^ k) ^ 2 ≤ 2 ^ l := by
      rw [← zpow_natCast, ← zpow_mul]
      exact zpow_le_zpow_right₀ one_le_two (by omega)
    exact_mod_cast hle.trans (by exact_mod_cast hlower)
  exact targetExponent_mono S (by omega)

/-- **A square root is the number that is nearest to the exact one.** -/
theorem holds_sqrt (hu : Holds S u x) (hx : 0 ≤ x) : Holds S (sqrt S u) (nearest S √x : ℝ) := by
  obtain ⟨hcanonical, hnan, hvalue⟩ := hu
  rcases u with (_ | _) | _ | s | ⟨_ | _, m, e, hm⟩
  · exact absurd hvalue (EReal.bot_ne_coe x)
  · exact absurd hvalue (EReal.top_ne_coe x)
  · exact absurd hnan Bool.noConfusion
  · rw [show x = 0 from EReal.coe_eq_zero.1 hvalue.symm, Real.sqrt_zero, nearest_zero]
    exact Holds.zero S s
  · have hneg := value_negative_neg m e hm
    rw [hvalue, EReal.coe_neg'] at hneg
    exact absurd hneg (not_lt.2 hx)
  · rw [value_finite, EReal.coe_eq_coe_iff] at hvalue
    have hquantum := targetExponent_half_le_quantum S hm e
    rw [← hvalue, sqrt, sqrtCore]
    change Holds S _ (nearest S √(m * 2 ^ e) : ℝ)
    generalize S.targetExponent ((totalExponent m e + 1) / 2) = target at hquantum
    generalize ht : min (e / 2) target = t
    generalize hshift : (e - 2 * t).toNat = k
    have hroot : (0 : ℝ) < √(m * 2 ^ e) := Real.sqrt_pos.2 (by positivity)
    have hscale : √(m * 2 ^ e) / 2 ^ t = √(m <<< k : ℕ) := by
      have hexponent : e = k + (t + t) := by omega
      rw [hexponent, zpow_add₀ two_ne_zero, zpow_add₀ two_ne_zero, zpow_natCast, ← mul_assoc,
        Real.sqrt_mul (by positivity), Real.sqrt_mul_self (by positivity), Nat.shiftLeft_eq,
        mul_div_cancel_right₀ _ (by positivity)]
      push_cast
      rfl
    have htells := tells_sqrt (m <<< k)
    rw [← hscale] at htells
    have hle : t ≤ quantum S √(m * 2 ^ e) := by omega
    exact holds_roundWithAccuracy hroot htells hle .positive

end SignedDistance.Unpacked
