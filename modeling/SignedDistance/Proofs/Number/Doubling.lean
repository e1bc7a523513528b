import SignedDistance.Proofs.Number.Precision
import SignedDistance.Proofs.Number.Range
import SignedDistance.Proofs.Number.Sign

set_option autoImplicit false

/-! # Powers of two

A power of two moves the point and leaves the digits as they are. So it passes through sums,
products and roots and cancels in quotients, and what is rounded is rounded in the same way, with
two provisos: there must be room for the greater results, and a product must not be so small that
digits of it are cut off. Small sums need no proviso, since they are exact. -/

namespace SignedDistance.Single

open Float.Model (Format UnpackedFloat)

variable {a b c a' b' : Float32} {x y r : ℝ} {j k : ℕ}

/-! ## Rounding -/

/-- Where all digits are there, a number is rounded as its multiples by powers of two are. -/
theorem nearest_scale (h : FullDigits r) (k : ℕ) :
    nearest .binary32 (r * 2 ^ k) = nearest .binary32 r * 2 ^ k := by
  rcases h with rfl | h
  · rw [zero_mul, nearest_zero, zero_mul]
  · have hmin : Format.binary32.minExponent + Format.binary32.mantissaBits - 1 = -126 := by decide
    rw [← hmin] at h
    exact nearest_mul_two_pow h k

theorem Denotes.representable (ha : Denotes a x) : Representable .binary32 x :=
  ha.nearest_eq ▸ representable_nearest _ x

/-- Every number is a multiple of the least one. -/
theorem Denotes.exists_multiple (ha : Denotes a x) : ∃ n : ℤ, x = n * 2 ^ (-149 : ℤ) := by
  obtain ⟨n, e, -, he, rfl⟩ := ha.representable
  have hmin : (-149 : ℤ) ≤ e := he
  obtain ⟨i, hi⟩ := Int.eq_ofNat_of_zero_le (sub_nonneg.2 hmin)
  refine ⟨n * 2 ^ i, ?_⟩
  rw [Int.cast_mul, Int.cast_pow, Int.cast_ofNat, mul_assoc, ← zpow_natCast, ← hi,
    ← zpow_add₀ two_ne_zero, sub_add_cancel]

/-- A sum that is small is exact. -/
theorem Denotes.representable_add (ha : Denotes a x) (hb : Denotes b y)
    (h : |x + y| < 2 ^ (-126 : ℤ)) : Representable .binary32 (x + y) := by
  obtain ⟨n, rfl⟩ := ha.exists_multiple
  obtain ⟨n', rfl⟩ := hb.exists_multiple
  rw [← add_mul, ← Int.cast_add] at h ⊢
  refine representable_binary32 (n + n') (-149) ?_ le_rfl rfl
  rw [abs_mul, abs_of_pos (by positivity : (0 : ℝ) < 2 ^ (-149 : ℤ)),
    ← lt_div_iff₀ (by positivity)] at h
  have hcast : (|n + n'| : ℝ) < (2 ^ 24 : ℤ) := by
    push_cast at h ⊢
    exact h.trans (by norm_num)
  exact_mod_cast hcast.le

theorem Denotes.nearest_add_scale (ha : Denotes a x) (hb : Denotes b y) (k : ℕ) :
    nearest .binary32 ((x + y) * 2 ^ k) = nearest .binary32 (x + y) * 2 ^ k := by
  rcases le_or_gt (2 ^ (-126 : ℤ)) |x + y| with hle | hlt
  · exact nearest_scale (.inr hle) k
  · have hexact := ha.representable_add hb hlt
    rw [nearest_eq_self hexact, nearest_eq_self (hexact.mul_two_pow k)]

/-! ## Room -/

theorem Denotes.abs_lt (ha : Denotes a x) : |x| < limit .binary32 := by
  have hfit : fit .binary32 (Unpacked.value a.toModel.unpack) = Unpacked.value a.toModel.unpack :=
    Unpacked.fit_value_unpack binary32_bias_pos a.toModel.valid
  rw [ha.value] at hfit
  exact abs_lt_limit_of_fit hfit

theorem Denotes.nearest_of_isFinite (ha : Denotes a (rounded (r : ℝ)))
    (hfinite : a.isFinite = true) : Denotes a (nearest .binary32 r : ℝ) := by
  obtain ⟨x, hx⟩ := isFinite_iff.1 hfinite
  rwa [← eq_nearest_of_rounded (ha.unique hx)]

/-- There is room for what is no greater than a number that there is room for. -/
theorem Denotes.nearest_of_le (hb : Denotes b (rounded (r : ℝ))) (ha : Denotes a x)
    (h : |nearest .binary32 r| ≤ |x|) : Denotes b (nearest .binary32 r : ℝ) := by
  rwa [rounded, nearestExt_coe, fit_coe (h.trans_lt ha.abs_lt)] at hb

/-! ## Factors -/

/-- If it is finite, `a` is `2 ^ k` times `b`, and has its sign also where both are zero. -/
def Times (k : ℕ) (a b : Float32) : Prop :=
  a.isFinite = true → ∃ x : ℝ, Denotes b x ∧ Denotes a (x * (2 ^ k : ℕ) : ℝ) ∧
    isNegative a = isNegative b

/-- The exact product is zero or no smaller than the numbers that have all their digits. -/
def KeepsDigits (a b : Float32) : Prop :=
  ∀ x y : ℝ, Denotes a x → Denotes b y → FullDigits (x * y)

theorem times_iff : Times k a b ↔ (a.isFinite = true → ∃ x : ℝ, Denotes b x ∧
    Denotes a (x * 2 ^ k : ℝ) ∧ isNegative a = isNegative b) := by
  rw [Times, Nat.cast_pow, Nat.cast_ofNat]

theorem KeepsDigits.symm (h : KeepsDigits a b) : KeepsDigits b a := fun x y hx hy =>
  mul_comm y x ▸ h y x hy hx

/-- Twice the least power of two that has all its digits. -/
def enough : Float32 := .ofBits 0x01000000

theorem denotes_enough : Denotes enough (2 ^ (-125 : ℤ) : ℝ) := by
  have h : enough.toModel.unpack = .finite .positive 8388608 (-148) (by decide) := rfl
  convert denotes_of_unpack h
  norm_num [UnpackedFloat.Sign.apply]

/-- Whether a factor is zero, or the rounded product large enough. -/
def testDigits (a b : Float32) : Bool := a == 0 || b == 0 || decide (enough ≤ (a * b).abs)

theorem keepsDigits_of_testDigits (h : testDigits a b = true) : KeepsDigits a b := by
  intro x y hx hy
  rw [testDigits, Bool.or_eq_true, Bool.or_eq_true, hx.beq_iff denotes_zero,
    hy.beq_iff denotes_zero, EReal.coe_eq_zero, EReal.coe_eq_zero, decide_eq_true_iff] at h
  rcases h with (rfl | rfl) | hle
  · exact .inl (zero_mul y)
  · exact .inl (mul_zero x)
  · refine .inr (not_lt.1 fun hlt => ?_)
    have hproduct := hx.mul_real hy (hlt.le.trans (by norm_num))
    have hlarge := EReal.coe_le_coe_iff.1 ((denotes_enough.le_iff hproduct.abs_real).1 hle)
    have hleast : Representable .binary32 (2 ^ (-126 : ℤ)) :=
      representable_binary32 1 (-126) (by decide) (by decide) (by norm_num)
    have hsmall := abs_nearest_le hleast hlt.le
    exact absurd (hlarge.trans hsmall) (by norm_num)

/-- All products of a number of the one list and a number of the other keep their digits. -/
def KeepAll (l l' : List Float32) : Prop := ∀ a ∈ l, ∀ b ∈ l', KeepsDigits a b

def testAll (l l' : List Float32) : Bool := l.all fun a => l'.all (testDigits a)

theorem keepAll_of_testAll {l l' : List Float32} (h : testAll l l' = true) : KeepAll l l' :=
  fun a ha b hb => keepsDigits_of_testDigits (List.all_eq_true.1 (List.all_eq_true.1 h a ha) b hb)

theorem Times.refl (a : Float32) : Times 0 a a := by
  refine times_iff.2 fun hfinite => ?_
  obtain ⟨x, hx⟩ := isFinite_iff.1 hfinite
  exact ⟨x, hx, by rwa [pow_zero, mul_one], rfl⟩

/-- A factor passes through rounding. -/
theorem times_of_rounded (ha : Denotes a (rounded (r * 2 ^ k : ℝ)))
    (hb : Denotes b (rounded (r : ℝ)))
    (hscale : nearest .binary32 (r * 2 ^ k) = nearest .binary32 r * 2 ^ k)
    (hsign : nearest .binary32 r = 0 → isNegative a = isNegative b) : Times k a b := by
  refine times_iff.2 fun hfinite => ?_
  have ha' := ha.nearest_of_isFinite hfinite
  rw [hscale] at ha'
  have hone : (1 : ℝ) ≤ 2 ^ k := one_le_pow₀ one_le_two
  have hpos : (0 : ℝ) < 2 ^ k := by positivity
  have hle : |nearest .binary32 r| ≤ |nearest .binary32 r * 2 ^ k| := by
    rw [abs_mul, abs_of_pos hpos]
    exact le_mul_of_one_le_right (by positivity) hone
  have hb' := hb.nearest_of_le ha' hle
  refine ⟨_, hb', ha', ?_⟩
  rcases eq_or_ne (nearest .binary32 r) 0 with hzero | hne
  · exact hsign hzero
  · rw [ha'.isNegative_eq (mul_ne_zero hne hpos.ne'), hb'.isNegative_eq hne]
    exact decide_eq_decide.2
      ⟨fun h => neg_of_mul_neg_left h hpos.le, fun h => mul_neg_of_neg_of_pos h hpos⟩

namespace Times

theorem neg (h : Times k a b) : Times k (-a) (-b) := by
  refine times_iff.2 fun hfinite => ?_
  obtain ⟨x, hb, ha, hsign⟩ := times_iff.1 h (isFinite_neg a ▸ hfinite)
  refine ⟨-x, ?_, ?_, ?_⟩
  · rw [EReal.coe_neg]
    exact hb.neg
  · rw [neg_mul, EReal.coe_neg]
    exact ha.neg
  · rw [isNegative_neg ha.isNaN, isNegative_neg hb.isNaN, hsign]

theorem add (h : Times k a b) (h' : Times k a' b') : Times k (a + a') (b + b') := by
  intro hfinite
  obtain ⟨hafinite, hafinite'⟩ := isFinite_of_isFinite_add hfinite
  obtain ⟨x, hb, ha, hsign⟩ := times_iff.1 h hafinite
  obtain ⟨y, hb', ha', hsign'⟩ := times_iff.1 h' hafinite'
  have hsum := hb.add hb' (not_opposite_coe x y)
  have hscaled := ha.add ha' (not_opposite_coe _ _)
  rw [← EReal.coe_add] at hsum hscaled
  rw [← add_mul] at hscaled
  refine times_of_rounded hscaled hsum (hb.nearest_add_scale hb' k) (fun hzero => ?_) hfinite
  -- no sum is rounded to zero unless it is zero
  have hopposite : y = -x := by
    refine (neg_eq_of_add_eq_zero_right ?_).symm
    rcases le_or_gt (2 ^ (-126 : ℤ)) |x + y| with hle | hlt
    · have hpos : 0 < nearest .binary32 |x + y| :=
        nearest_pos_iff.2 (lt_of_lt_of_le (by norm_num) hle)
      rcases abs_choice (x + y) with habs | habs
      · rw [habs, hzero] at hpos
        exact absurd hpos (lt_irrefl _)
      · rw [habs, nearest_neg, hzero, neg_zero] at hpos
        exact absurd hpos (lt_irrefl _)
    · rwa [nearest_eq_self (hb.representable_add hb' hlt)] at hzero
  subst hopposite
  rw [neg_mul] at ha'
  rw [isNegative_add_of_opposite ha ha', isNegative_add_of_opposite hb hb', hsign, hsign']

theorem sub (h : Times k a b) (h' : Times k a' b') : Times k (a - a') (b - b') := by
  rw [Single.sub_eq_add_neg, Single.sub_eq_add_neg]
  exact h.add h'.neg

theorem mul (h : Times j a b) (h' : Times k a' b') (hkeeps : KeepsDigits b b') :
    Times (j + k) (a * a') (b * b') := by
  intro hfinite
  obtain ⟨hafinite, hafinite'⟩ := isFinite_of_isFinite_mul hfinite
  obtain ⟨x, hb, ha, hsign⟩ := times_iff.1 h hafinite
  obtain ⟨y, hb', ha', hsign'⟩ := times_iff.1 h' hafinite'
  have hproduct := hb.mul hb'
  have hscaled := ha.mul ha'
  rw [mul_mul_mul_comm, ← pow_add] at hscaled
  refine times_of_rounded hscaled hproduct (nearest_scale (hkeeps x y hb hb') _) (fun _ => ?_)
    hfinite
  rw [isNegative_mul hscaled.isNaN, isNegative_mul hproduct.isNaN, hsign, hsign']

/-- There is no doubt about a product by two. -/
theorem mul_two (h : Times k a b) : Times k (a * 2) (b * 2) := by
  intro hfinite
  obtain ⟨x, hb, ha, hsign⟩ := times_iff.1 h (isFinite_of_isFinite_mul hfinite).1
  have hproduct := hb.mul denotes_two
  have hscaled := ha.mul denotes_two
  rw [mul_right_comm] at hscaled
  have hexact : Representable .binary32 (x * 2) := by
    have h := hb.representable.mul_two_pow 1
    rwa [pow_one] at h
  refine times_of_rounded hscaled hproduct ?_ (fun _ => ?_) hfinite
  · rw [nearest_eq_self hexact, nearest_eq_self (hexact.mul_two_pow k)]
  · rw [isNegative_mul hscaled.isNaN, isNegative_mul hproduct.isNaN, hsign]

/-- The square root takes half of the twos. -/
theorem sqrt (h : Times (2 * k) a b) (hfinite : a.isFinite = true) (hnonneg : 0 ≤ a) :
    Times k a.sqrt b.sqrt := by
  obtain ⟨x, hb, ha, hsign⟩ := times_iff.1 h hfinite
  have hpos : (0 : ℝ) < 2 ^ k := by positivity
  have hx : 0 ≤ x * 2 ^ (2 * k) := EReal.coe_nonneg.1 ((denotes_zero.le_iff ha).1 hnonneg)
  have hx₀ : 0 ≤ x := nonneg_of_mul_nonneg_left hx (by positivity)
  have hroot := hb.sqrt hx₀
  have hscaled := ha.sqrt hx
  rw [mul_comm 2 k, pow_mul, Real.sqrt_mul hx₀, Real.sqrt_sq hpos.le] at hscaled
  rcases eq_or_ne x 0 with rfl | hne
  · rw [Real.sqrt_zero] at hroot hscaled
    refine times_of_rounded hscaled hroot (nearest_scale (.inl rfl) k) fun _ => ?_
    rw [zero_mul] at ha
    rw [ha.eq_of_isNegative hb hsign]
  · -- the root of the least number is still far from it
    have hlarge := (hb.sqrt_bounds (hx₀.lt_of_ne' hne)).1
    have hkept : 2 ^ (-126 : ℤ) ≤ |√x| := by
      rw [abs_of_nonneg (Real.sqrt_nonneg x)]
      exact le_trans (by norm_num) hlarge
    have hrounded : 0 < nearest .binary32 √x :=
      nearest_pos_iff.2 (lt_of_lt_of_le (by norm_num) hlarge)
    exact times_of_rounded hscaled hroot (nearest_scale (.inr hkept) k) fun hzero =>
      absurd hzero hrounded.ne'

/-- **What is in both cancels in a quotient.** -/
theorem div_eq (h : Times k a b) (h' : Times k a' b') (hfinite : a.isFinite = true)
    (hfinite' : a'.isFinite = true) : a / a' = b / b' := by
  obtain ⟨x, hb, ha, hsign⟩ := times_iff.1 h hfinite
  obtain ⟨y, hb', ha', hsign'⟩ := times_iff.1 h' hfinite'
  have hpos : (2 : ℝ) ^ k ≠ 0 := by positivity
  have hsigns : (a / a').isNaN = false → (b / b').isNaN = false →
      isNegative (a / a') = isNegative (b / b') := fun hnan hnan' => by
    rw [isNegative_div hnan, isNegative_div hnan', hsign, hsign']
  rcases eq_or_ne y 0 with rfl | hy
  · rcases eq_or_ne x 0 with rfl | hx
    · rw [zero_mul] at ha ha'
      rw [ha.eq_of_isNegative hb hsign, ha'.eq_of_isNegative hb' hsign']
    · rw [zero_mul] at ha'
      obtain ⟨s, hs⟩ := ha.exists_div_zero (mul_ne_zero hx hpos) ha'
      obtain ⟨s', hs'⟩ := hb.exists_div_zero hx hb'
      have hinfinite := hsigns (congrArg UnpackedFloat.isNaN hs) (congrArg UnpackedFloat.isNaN hs')
      rw [isNegative, isNegative, hs, hs'] at hinfinite
      refine eq_of_unpack_eq ?_
      rw [hs, hs']
      exact Unpacked.eq_of_abs_eq rfl hinfinite
  · have hquotient := hb.div hb' hy
    have hscaled := ha.div ha' (mul_ne_zero hy hpos)
    rw [mul_div_mul_right _ _ hpos] at hscaled
    exact hscaled.eq_of_isNegative hquotient (hsigns hscaled.isNaN hquotient.isNaN)

theorem isFinite_right (h : Times k a b) (hfinite : a.isFinite = true) : b.isFinite = true := by
  obtain ⟨x, hb, -, -⟩ := times_iff.1 h hfinite
  exact isFinite_iff.2 ⟨x, hb⟩

/-- What is four times a number is its product by four. -/
theorem eq_mul_four (h : Times 2 a b) (hfinite : a.isFinite = true) : a = b * 4 := by
  obtain ⟨x, hb, ha, hsign⟩ := times_iff.1 h hfinite
  have hproduct := hb.mul denotes_four
  have hfour : x * 2 ^ 2 = x * 4 := by norm_num
  rw [hfour] at ha
  rw [ha.rounded_eq] at hproduct
  refine ha.eq_of_isNegative hproduct ?_
  have hpositive : isNegative 4 = false := rfl
  rw [isNegative_mul hproduct.isNaN, hpositive, Bool.xor_false, hsign]

end Times

/-- Only zeros are four times themselves. -/
theorem mul_four_eq_self_iff (hfinite : a.isFinite = true) : a * 4 = a ↔ (a == 0) = true := by
  obtain ⟨x, hx⟩ := isFinite_iff.1 hfinite
  rw [hx.beq_iff denotes_zero, EReal.coe_eq_zero]
  constructor
  · intro h
    have hproduct := hx.mul denotes_four
    rw [h] at hproduct
    have hexact : Representable .binary32 (x * 4) := by
      have hscaled := hx.representable.mul_two_pow 2
      norm_num at hscaled
      exact hscaled
    have hself : x = x * 4 := by
      rw [← nearest_eq_self hexact]
      exact eq_nearest_of_rounded (hproduct.unique hx)
    linarith
  · rintro rfl
    have hzeros : ∀ z ∈ [(0 : Float32), -0], z * 4 = z := by decide +kernel
    exact hzeros a hx.mem_of_zero

/-- Twice a number is twice it, down to the sign. -/
theorem times_two_mul (a : Float32) : Times 1 (2 * a) a := by
  intro hfinite
  obtain ⟨x, hx⟩ := isFinite_iff.1 (isFinite_of_isFinite_mul hfinite).2
  have hproduct := denotes_two.mul hx
  have hself : Denotes a (rounded (x : ℝ)) := hx.rounded_eq.symm ▸ hx
  rw [mul_comm, ← pow_one (2 : ℝ)] at hproduct
  refine times_of_rounded hproduct hself ?_ (fun _ => ?_) hfinite
  · rw [nearest_eq_self hx.representable, nearest_eq_self (hx.representable.mul_two_pow 1)]
  · have htwo : isNegative 2 = false := rfl
    rw [isNegative_mul hproduct.isNaN, htwo, Bool.false_xor]

end SignedDistance.Single
