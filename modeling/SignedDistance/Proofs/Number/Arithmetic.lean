import SignedDistance.Proofs.Number.Rounding

set_option autoImplicit false

/-! # Arithmetic of floats

A float operation on two floats that are numbers gives the number of the format that is nearest to
the exact result, with digits but without a greatest exponent as yet. -/

namespace SignedDistance

open Float.Model (Format UnpackedFloat totalExponent)
open Float.Model.UnpackedFloat

/-! ## Rounding extended real numbers -/

/-- The number of the format that is nearest, an infinity being so to itself. -/
noncomputable def nearestExt (S : Format) (y : EReal) : EReal :=
  if y = ⊤ ∨ y = ⊥ then y else (nearest S y.toReal : ℝ)

variable {S : Format}

@[simp] theorem nearestExt_top : nearestExt S ⊤ = ⊤ := if_pos (.inl rfl)

@[simp] theorem nearestExt_bot : nearestExt S ⊥ = ⊥ := if_pos (.inr rfl)

@[simp] theorem nearestExt_coe (x : ℝ) : nearestExt S x = (nearest S x : ℝ) := by
  rw [nearestExt, if_neg (not_or.2 ⟨EReal.coe_ne_top x, EReal.coe_ne_bot x⟩), EReal.toReal_coe]

theorem nearestExt_mono (S : Format) : Monotone (nearestExt S) := by
  intro y z hle
  induction y with
  | bot => rw [nearestExt_bot]; exact bot_le
  | top => rw [top_le_iff.1 hle]
  | coe x =>
    induction z with
    | bot => exact absurd hle (not_le.2 (EReal.bot_lt_coe x))
    | top => rw [nearestExt_top]; exact le_top
    | coe z =>
      rw [nearestExt_coe, nearestExt_coe]
      exact EReal.coe_le_coe_iff.2 (nearest_mono S (EReal.coe_le_coe_iff.1 hle))

/-- Infinities of two signs. -/
def Opposite (y z : EReal) : Prop := y = ⊤ ∧ z = ⊥ ∨ y = ⊥ ∧ z = ⊤

namespace Unpacked

variable {u v : UnpackedFloat} {y z : EReal} {m m' : ℕ} {e e' : ℤ}

/-- A canonical float is the nearest one to the number it stands for. -/
theorem Holds.nearestExt_eq (h : Holds S u y) : nearestExt S y = y := by
  obtain ⟨hcanonical, hnan, rfl⟩ := h
  rcases u with (_ | _) | _ | s | ⟨s, m, e, hm⟩
  · exact nearestExt_bot
  · exact nearestExt_top
  · exact absurd hnan Bool.noConfusion
  · rw [value_zero, ← EReal.coe_zero, nearestExt_coe, nearest_zero]
  · rw [value_finite, nearestExt_coe, nearest_eq_self (CanonicalDigits.representable hcanonical s)]

theorem Holds.nearest_eq {x : ℝ} (h : Holds S u x) : nearest S x = x := by
  have hnearest := h.nearestExt_eq
  rwa [nearestExt_coe, EReal.coe_eq_coe_iff] at hnearest

theorem Holds.nearestExt_of_top (h : y = ⊤) : Holds S (.infinity .positive) (nearestExt S y) := by
  rw [h, nearestExt_top]
  exact Holds.top S

theorem Holds.nearestExt_of_bot (h : y = ⊥) : Holds S (.infinity .negative) (nearestExt S y) := by
  rw [h, nearestExt_bot]
  exact Holds.bot S

/-! ## Sums -/

theorem apply_shiftLeft (s : Sign) (m : ℕ) {e t : ℤ} (ht : t ≤ e) :
    (s.apply (m <<< (e - t).toNat : ℕ) * 2 ^ t : ℝ) = s.apply m * 2 ^ e := by
  have hsplit : e = (e - t).toNat + t := by omega
  conv_rhs => rw [hsplit, zpow_add₀ two_ne_zero, zpow_natCast, ← mul_assoc]
  rw [Nat.shiftLeft_eq]
  cases s <;> simp [Sign.apply]

theorem holds_add (hu : Holds S u y) (hv : Holds S v z) (hne : ¬Opposite y z) :
    Holds S (add S u v) (nearestExt S (y + z)) := by
  have hy := hu.nearestExt_eq
  have hz := hv.nearestExt_eq
  obtain ⟨hucanonical, hunan, rfl⟩ := hu
  obtain ⟨hvcanonical, hvnan, rfl⟩ := hv
  rcases u with (_ | _) | _ | s | ⟨s, m, e, hm⟩ <;>
    rcases v with (_ | _) | _ | s' | ⟨s', m', e', hm'⟩
  all_goals first
    | exact absurd hunan Bool.noConfusion
    | exact absurd hvnan Bool.noConfusion
    | exact absurd (.inl ⟨rfl, rfl⟩) hne
    | exact absurd (.inr ⟨rfl, rfl⟩) hne
    -- an infinity absorbs whatever is added
    | exact Holds.nearestExt_of_top (EReal.top_add_coe _)
    | exact Holds.nearestExt_of_top (EReal.coe_add_top _)
    | exact Holds.nearestExt_of_top EReal.top_add_top
    | exact Holds.nearestExt_of_bot (EReal.bot_add _)
    | exact Holds.nearestExt_of_bot (EReal.add_bot _)
    | skip
  case finite.finite =>
    rw [value_finite, value_finite, ← EReal.coe_add, nearestExt_coe,
      ← apply_shiftLeft s m (min_le_left e e'), ← apply_shiftLeft s' m' (min_le_right e e'),
      ← add_mul]
    have h := holds_normalize (S := S) (s.apply (m <<< (e - min e e').toNat : ℕ) +
      s'.apply (m' <<< (e' - min e e').toNat : ℕ)) (min e e') .positive
    rw [Int.cast_add] at h
    exact h
  case zero.zero =>
    rw [value_zero, value_zero, add_zero, ← EReal.coe_zero, nearestExt_coe, nearest_zero]
    cases s <;> cases s' <;> exact Holds.zero S _
  case zero.finite =>
    rw [value_zero, zero_add, hz]
    exact ⟨hvcanonical, rfl, rfl⟩
  case finite.zero =>
    rw [value_zero, add_zero, hy]
    exact ⟨hucanonical, rfl, rfl⟩

theorem add_of_isNaN (S : Format) (h : u.isNaN = true ∨ v.isNaN = true) :
    add S u v = .notANumber := by
  rcases u with (_ | _) | _ | s | ⟨s, m, e, hm⟩ <;>
    rcases v with (_ | _) | _ | s' | ⟨s', m', e', hm'⟩ <;>
    first
    | rfl
    | exact h.elim Bool.noConfusion Bool.noConfusion

/-! ## Signs -/

theorem canonical_neg (h : Canonical S u) : Canonical S u.neg := by
  cases u <;> exact h

theorem value_neg (u : UnpackedFloat) : value u.neg = -value u := by
  rcases u with (_ | _) | _ | s | ⟨_ | _, m, e, hm⟩
  · exact EReal.neg_bot.symm
  · exact EReal.neg_top.symm
  · exact neg_zero.symm
  · exact neg_zero.symm
  · rw [value_negative, neg_neg]
    rfl
  · exact value_negative m e hm

theorem isNaN_neg (u : UnpackedFloat) : u.neg.isNaN = u.isNaN := by cases u <;> rfl

theorem Holds.neg (h : Holds S u y) : Holds S u.neg (-y) :=
  ⟨canonical_neg h.canonical, (isNaN_neg u).trans h.isNaN, h.value ▸ value_neg u⟩

theorem canonical_abs (h : Canonical S u) : Canonical S u.abs := by
  cases u <;> exact h

theorem value_abs (u : UnpackedFloat) : value u.abs = max (value u) (-value u) := by
  rcases u with (_ | _) | _ | s | ⟨_ | _, m, e, hm⟩
  · simp [UnpackedFloat.abs]
  · simp [UnpackedFloat.abs]
  · simp [UnpackedFloat.abs, value]
  · simp [UnpackedFloat.abs]
  · have hneg := EReal.neg_lt_zero.2 (value_positive_pos m e hm)
    rw [value_negative, neg_neg, max_eq_right (hneg.le.trans (EReal.neg_lt_zero.1 hneg).le)]
    rfl
  · have hneg := EReal.neg_lt_zero.2 (value_positive_pos m e hm)
    rw [max_eq_left (hneg.le.trans (EReal.neg_lt_zero.1 hneg).le)]
    rfl

theorem isNaN_abs (u : UnpackedFloat) : u.abs.isNaN = u.isNaN := by cases u <;> rfl

theorem Holds.abs (h : Holds S u y) : Holds S u.abs (max y (-y)) :=
  ⟨canonical_abs h.canonical, (isNaN_abs u).trans h.isNaN, h.value ▸ value_abs u⟩

theorem Holds.abs_real {x : ℝ} (h : Holds S u x) : Holds S u.abs (|x| : ℝ) := by
  have habs := h.abs
  rwa [← EReal.coe_neg, ← EReal.coe_strictMono.monotone.map_max] at habs

/-! ## Differences -/

theorem apply_neg (s : Sign) (n : ℤ) : (-s).apply n = -s.apply n := by
  cases s with
  | negative => exact (neg_neg n).symm
  | positive => rfl

theorem sub_eq_add (S : Format) (u v : UnpackedFloat) : sub S u v = add S u v.neg := by
  rcases u with (_ | _) | _ | (_ | _) | ⟨s, m, e, hm⟩ <;>
    rcases v with (_ | _) | _ | (_ | _) | ⟨s', m', e', hm'⟩
  case finite.finite =>
    rw [sub, neg, add]
    dsimp only
    rw [apply_neg, Int.sub_eq_add_neg]
  all_goals rfl

/-- Nothing is left of a number from which it is taken away, and that has no minus. -/
theorem add_neg_self (h : u.isFinite = true) (hzero : ∀ s, u ≠ .zero s) :
    add S u u.neg = .zero .positive := by
  rcases u with _ | _ | s | ⟨s, m, e, hm⟩
  · cases h
  · cases h
  · cases hzero s rfl
  · simp [add, UnpackedFloat.neg, UnpackedFloat.normalize, apply_neg]

theorem holds_sub (hu : Holds S u y) (hv : Holds S v z) (hne : ¬Opposite y (-z)) :
    Holds S (sub S u v) (nearestExt S (y - z)) := by
  rw [sub_eq_add]
  exact holds_add hu hv.neg hne

/-! ## Products -/

theorem apply_mul (s s' : Sign) (m m' : ℕ) :
    ((s * s').apply (m * m' : ℕ) : ℤ) = s.apply m * s'.apply m' := by
  cases s <;> cases s'
  · change ((m * m' : ℕ) : ℤ) = -m * -m'
    push_cast
    ring
  · change -((m * m' : ℕ) : ℤ) = -m * m'
    push_cast
    ring
  · change -((m * m' : ℕ) : ℤ) = m * -m'
    push_cast
    ring
  · exact Nat.cast_mul m m'

theorem minExponent_le_zero (S : Format) : S.minExponent ≤ 0 := by
  have hpow : (1 : ℤ) ≤ 2 ^ (S.exponentBits - 1) := one_le_pow₀ one_le_two
  have hm := S.hm
  rw [Format.minExponent, Format.mantissaBits]
  omega

/-- The product of canonical digits has all the digits that may be kept. -/
theorem CanonicalDigits.add_le (h : CanonicalDigits S m e) (h' : CanonicalDigits S m' e')
    (hm : 0 < m) (hm' : 0 < m') :
    e + e' ≤ S.targetExponent (totalExponent (m * m') (e + e')) := by
  have hmin := minExponent_le_zero S
  have hle {n : ℕ} (hn : n ∣ m * m') (hlog : S.mantissaBitsWithoutImplicit ≤ n.log2) :
      S.mantissaBitsWithoutImplicit ≤ (m * m').log2 := by
    have hpos := Nat.mul_pos hm hm'
    have hn₀ : n ≠ 0 := by
      rintro rfl
      exact hpos.ne' (Nat.zero_dvd.1 hn)
    have hself : 2 ^ n.log2 ≤ m * m' := (Nat.log2_self_le hn₀).trans (Nat.le_of_dvd hpos hn)
    exact hlog.trans ((Nat.le_log2 hpos.ne').2 hself)
  have hleft := fun h => hle (Dvd.intro m' rfl) ((Nat.le_log2 hm.ne').2 h)
  have hright := fun h => hle (Dvd.intro_left m rfl) ((Nat.le_log2 hm'.ne').2 h)
  rw [Format.targetExponent, totalExponent, Format.mantissaBits]
  rcases eq_or_ne e S.minExponent with he | he
  · rcases eq_or_ne e' S.minExponent with he' | he'
    · omega
    · have := hright (h'.le hm' he')
      omega
  · have := hleft (h.le hm he)
    omega

theorem holds_mul {x x' : ℝ} (hu : Holds S u x) (hv : Holds S v x') :
    Holds S (mul S u v) (nearest S (x * x') : ℝ) := by
  obtain ⟨hucanonical, hunan, hx⟩ := hu
  obtain ⟨hvcanonical, hvnan, hx'⟩ := hv
  rcases u with (_ | _) | _ | s | ⟨s, m, e, hm⟩ <;>
    rcases v with (_ | _) | _ | s' | ⟨s', m', e', hm'⟩
  all_goals first
    | exact absurd hunan Bool.noConfusion
    | exact absurd hvnan Bool.noConfusion
    | exact absurd hx (EReal.bot_ne_coe x)
    | exact absurd hx (EReal.top_ne_coe x)
    | exact absurd hx' (EReal.bot_ne_coe x')
    | exact absurd hx' (EReal.top_ne_coe x')
    | skip
  case finite.finite =>
    rw [value_finite, EReal.coe_eq_coe_iff] at hx hx'
    have hmm : 0 < m * m' := Nat.mul_pos hm hm'
    have hpos : (0 : ℝ) < (m * m' : ℕ) * 2 ^ (e + e') := by positivity
    have hle := CanonicalDigits.add_le hucanonical hvcanonical hm hm'
    rw [← quantum_mul_zpow S hmm] at hle
    have htells : Tells (m * m') ((m * m' : ℕ) * 2 ^ (e + e') / 2 ^ (e + e') : ℝ) .exact :=
      .exact (mul_div_cancel_right₀ _ (by positivity))
    have h := holds_roundWithAccuracy hpos htells hle (s * s')
    rw [signed_mul_zpow, apply_mul, zpow_add₀ two_ne_zero, Int.cast_mul, mul_mul_mul_comm] at h
    rw [← hx, ← hx']
    exact h
  -- a factor is zero
  all_goals
    first
    | rw [show x = 0 from (EReal.coe_eq_zero.1 hx.symm), zero_mul, nearest_zero]
    | rw [show x' = 0 from (EReal.coe_eq_zero.1 hx'.symm), mul_zero, nearest_zero]
    exact Holds.zero S _

theorem mul_of_isNaN (S : Format) (h : u.isNaN = true ∨ v.isNaN = true) :
    mul S u v = .notANumber := by
  rcases u with (_ | _) | _ | s | ⟨s, m, e, hm⟩ <;>
    rcases v with (_ | _) | _ | s' | ⟨s', m', e', hm'⟩ <;>
    first
    | rfl
    | exact h.elim Bool.noConfusion Bool.noConfusion

/-- A product is finite only if both its factors are. -/
theorem isFinite_of_isFinite_mul (h : (mul S u v).isFinite = true) :
    u.isFinite = true ∧ v.isFinite = true := by
  rcases u with _ | _ | s | ⟨s, m, e, hm⟩ <;> rcases v with _ | _ | s' | ⟨s', m', e', hm'⟩
  all_goals first
    | exact ⟨rfl, rfl⟩
    | cases h

theorem canonical_mul (hu : Canonical S u) (hv : Canonical S v) : Canonical S (mul S u v) := by
  by_cases hfinite : u.isFinite = true ∧ v.isFinite = true
  · obtain ⟨x, hx⟩ := exists_holds_of_isFinite hu hfinite.1
    obtain ⟨x', hx'⟩ := exists_holds_of_isFinite hv hfinite.2
    exact (holds_mul hx hx').canonical
  · rcases u with _ | _ | s | ⟨s, m, e, hm⟩ <;> rcases v with _ | _ | s' | ⟨s', m', e', hm'⟩ <;>
      first
      | trivial
      | exact absurd ⟨rfl, rfl⟩ hfinite

theorem roundWithAccuracy_neg (S : Format) (s : Sign) (m : ℕ) (e : ℤ) (acc : Accuracy) :
    roundWithAccuracy S (-s) m e acc = (roundWithAccuracy S s m e acc).neg := by
  unfold roundWithAccuracy
  dsimp only
  split_ifs <;> rfl

protected theorem mul_neg (S : Format) (u v : UnpackedFloat) : mul S u v.neg = (mul S u v).neg := by
  have hsign (s s' : Sign) : s * -s' = -(s * s') := by cases s <;> cases s' <;> rfl
  rcases u with _ | _ | s | ⟨s, m, e, hm⟩ <;> rcases v with _ | _ | s' | ⟨s', m', e', hm'⟩
  case finite.finite => simp only [mul, neg, hsign, roundWithAccuracy_neg]
  all_goals simp only [mul, neg, hsign]

protected theorem neg_mul (S : Format) (u v : UnpackedFloat) : mul S u.neg v = (mul S u v).neg := by
  have hsign (s s' : Sign) : -s * s' = -(s * s') := by cases s <;> cases s' <;> rfl
  rcases u with _ | _ | s | ⟨s, m, e, hm⟩ <;> rcases v with _ | _ | s' | ⟨s', m', e', hm'⟩
  case finite.finite => simp only [mul, neg, hsign, roundWithAccuracy_neg]
  all_goals simp only [mul, neg, hsign]

/-- A square does not see the sign. -/
theorem mul_abs_self (S : Format) (u : UnpackedFloat) : mul S u.abs u.abs = mul S u u := by
  rcases u with (_ | _) | _ | (_ | _) | ⟨_ | _⟩ <;> rfl

/-- Zero times anything is zero, or no number. -/
theorem mul_zero_cases (S : Format) (u : UnpackedFloat) (s : Sign) :
    mul S u (.zero s) = .notANumber ∨ ∃ s', mul S u (.zero s) = .zero s' := by
  rcases u with _ | _ | s' | ⟨s', m, e, hm⟩
  · exact .inl rfl
  · exact .inl rfl
  · exact .inr ⟨s' * s, rfl⟩
  · exact .inr ⟨s' * s, rfl⟩

/-- Infinity times a positive number is infinity. -/
theorem top_mul (S : Format) (hv : Holds S v z) (hz : 0 < z) :
    mul S (.infinity .positive) v = .infinity .positive := by
  obtain ⟨-, hnan, rfl⟩ := hv
  rcases v with (_ | _) | _ | s | ⟨_ | _, m, e, hm⟩
  · exact absurd hz (not_lt.2 bot_le)
  · rfl
  · exact absurd hnan Bool.noConfusion
  · exact absurd hz (lt_irrefl _)
  · exact absurd hz (value_negative_neg m e hm).not_gt
  · rfl

/-- A product of numbers that are not negative is not negative, infinities included. -/
theorem holds_mul_of_nonneg (hu : Holds S u y) (hv : Holds S v z) (hy : 0 ≤ y) (hz : 0 ≤ z) :
    mul S u v = .notANumber ∨ ∃ w, 0 ≤ w ∧ Holds S (mul S u v) w := by
  by_cases hfinite : u.isFinite = true ∧ v.isFinite = true
  · obtain ⟨x, hx⟩ := exists_holds_of_isFinite hu.canonical hfinite.1
    obtain ⟨x', hx'⟩ := exists_holds_of_isFinite hv.canonical hfinite.2
    rw [← hu.value, hx.value, EReal.coe_nonneg] at hy
    rw [← hv.value, hx'.value, EReal.coe_nonneg] at hz
    refine .inr ⟨_, EReal.coe_nonneg.2 ?_, holds_mul hx hx'⟩
    have hmono := nearest_mono S (mul_nonneg hy hz)
    rwa [nearest_zero] at hmono
  · rw [← hu.value] at hy
    rw [← hv.value] at hz
    rcases u with (_ | _) | _ | s | ⟨_ | _, m, e, hm⟩ <;>
      rcases v with (_ | _) | _ | s' | ⟨_ | _, m', e', hm'⟩ <;>
      first
      | exact absurd hu.isNaN Bool.noConfusion
      | exact absurd hv.isNaN Bool.noConfusion
      | exact absurd hy (not_le.2 EReal.bot_lt_zero)
      | exact absurd hz (not_le.2 EReal.bot_lt_zero)
      | exact absurd hy (not_le.2 (value_negative_neg m e hm))
      | exact absurd hz (not_le.2 (value_negative_neg m' e' hm'))
      | exact absurd ⟨rfl, rfl⟩ hfinite
      | exact .inl rfl
      | exact .inr ⟨⊤, le_top, Holds.top S⟩

end Unpacked

end SignedDistance
