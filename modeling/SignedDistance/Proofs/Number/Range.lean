import SignedDistance.Proofs.Number.Single

set_option autoImplicit false

/-! # The range of singles

Positive numbers are rounded to zero if they are too small and to infinity if they are too large.
The bounds are half of the least positive single, and the middle between the greatest one and what
would come next; on a bound itself the even neighbour is the one outside. -/

namespace SignedDistance

open Float.Model (Format UnpackedFloat)

variable {x : ℝ}

theorem roundEven_half : roundEven (1 / 2) = 0 :=
  roundEven_eq_iff.2 (.inr ⟨by norm_num, Even.zero⟩)

theorem nearest_two_zpow_neg_150 : nearest .binary32 (2 ^ (-150 : ℤ)) = 0 := by
  have hlog : Int.log 2 |(2 : ℝ) ^ (-150 : ℤ)| = -150 := by
    rw [abs_of_pos (by positivity)]
    exact_mod_cast Int.log_zpow (R := ℝ) one_lt_two (-150)
  have hquantum : quantum .binary32 (2 ^ (-150 : ℤ)) = -149 := by
    rw [quantum, hlog]
    decide
  have hhalf : (2 : ℝ) ^ (-150 : ℤ) / 2 ^ (-149 : ℤ) = 1 / 2 := by norm_num
  rw [nearest, hquantum, hhalf, roundEven_half, Int.cast_zero, zero_mul]

/-- What is not rounded to zero. -/
theorem nearest_pos_iff : 0 < nearest .binary32 x ↔ 2 ^ (-150 : ℤ) < x := by
  constructor
  · intro hpos
    by_contra hle
    have hmono := nearest_mono .binary32 (not_lt.1 hle)
    rw [nearest_two_zpow_neg_150] at hmono
    exact absurd hpos (not_lt.2 hmono)
  · intro hlt
    have hx : 0 < x := lt_trans (by positivity) hlt
    refine (nearest_nonneg .binary32 hx.le).lt_of_ne' fun hzero => ?_
    -- the least positive single would be nearer than zero
    have hleast : Representable .binary32 (2 ^ (-149 : ℤ)) :=
      representable_binary32 1 (-149) (by norm_num) le_rfl (by norm_num)
    have hnear := abs_sub_nearest_le x hleast
    rw [hzero, sub_zero, abs_of_pos hx] at hnear
    rcases abs_cases (x - 2 ^ (-149 : ℤ)) with ⟨habs, -⟩ | ⟨habs, -⟩
    · have hpos : (0 : ℝ) < 2 ^ (-149 : ℤ) := by positivity
      linarith
    · rw [habs] at hnear
      norm_num at hnear hlt
      linarith

theorem nearest_overflow : nearest .binary32 (2 ^ 128 - 2 ^ 103) = 2 ^ 128 := by
  have hquantum : quantum .binary32 (2 ^ 128 - 2 ^ 103) = 104 :=
    quantum_eq (k := 127) (by norm_num) (by norm_num) (by decide)
  have hsplit : ((2 : ℝ) ^ 128 - 2 ^ 103) / 2 ^ (104 : ℤ) = 2 * ((2 ^ 23 : ℤ) : ℝ) - 1 / 2 := by
    norm_num
  rw [nearest, hquantum, hsplit, roundEven_two_mul_sub, roundEven_half]
  norm_num

/-- What is not rounded to infinity. -/
theorem nearest_lt_limit_iff : nearest .binary32 x < 2 ^ 128 ↔ x < 2 ^ 128 - 2 ^ 103 := by
  constructor
  · intro hlt
    by_contra hle
    have hmono := nearest_mono .binary32 (not_lt.1 hle)
    rw [nearest_overflow] at hmono
    exact absurd hlt (not_lt.2 hmono)
  · intro hlt
    by_contra hle
    -- the greatest single would be nearer
    have hgreatest : Representable .binary32 (2 ^ 128 - 2 ^ 104) :=
      representable_binary32 (2 ^ 24 - 1) 104 (by norm_num) (by norm_num) (by norm_num)
    have hnear := abs_sub_nearest_le x hgreatest
    have hdist := neg_le_abs (x - nearest .binary32 x)
    rcases abs_cases (x - (2 ^ 128 - 2 ^ 104 : ℝ)) with ⟨habs, -⟩ | ⟨habs, -⟩ <;>
      rw [habs] at hnear <;> norm_num at hnear hlt hle <;> linarith

namespace Single

variable {a b : Float32} {y : EReal}

theorem Denotes.isPositiveFinite_iff (h : Denotes a y) :
    isPositiveFinite a = true ↔ 0 < y ∧ y < ⊤ := by
  rw [Single.isPositiveFinite_iff, denotes_zero.lt_iff h]
  refine and_congr_right fun hpos => ?_
  rw [isFinite_iff]
  constructor
  · rintro ⟨x, hx⟩
    rw [h.unique hx]
    exact EReal.coe_lt_top x
  · intro hlt
    lift y to ℝ using ⟨hlt.ne, (EReal.bot_lt_zero.trans hpos).ne'⟩
    exact ⟨y, h⟩

theorem rounded_pos_iff : 0 < rounded x ↔ 2 ^ (-150 : ℤ) < x := by
  rw [← nearest_pos_iff, rounded, nearestExt_coe, fit, limit_binary32]
  split_ifs with hover hunder
  · have hle := EReal.coe_le_coe_iff.1 hover
    exact iff_of_true EReal.zero_lt_top (lt_of_lt_of_le (by positivity) hle)
  · have hle := EReal.coe_le_coe_iff.1 hunder
    exact iff_of_false not_lt_bot (not_lt.2 (hle.trans (by norm_num)))
  · exact EReal.coe_pos

theorem rounded_lt_top_iff : rounded x < ⊤ ↔ x < 2 ^ 128 - 2 ^ 103 := by
  rw [← nearest_lt_limit_iff, rounded, nearestExt_coe, fit, limit_binary32]
  split_ifs with hover hunder
  · exact iff_of_false (lt_irrefl ⊤) (not_lt.2 (EReal.coe_le_coe_iff.1 hover))
  · have hle := EReal.coe_le_coe_iff.1 hunder
    exact iff_of_true bot_lt_top (hle.trans_lt (by norm_num))
  · exact iff_of_true (EReal.coe_lt_top _) (EReal.coe_lt_coe_iff.1 (not_le.1 hover))

theorem Denotes.isPositiveFinite_iff_inRange {x : ℝ} (h : Denotes a (rounded x)) :
    isPositiveFinite a = true ↔ InRange x := by
  rw [h.isPositiveFinite_iff, rounded_pos_iff, rounded_lt_top_iff, InRange]

/-- What is rounded to a number is rounded to the nearest. -/
theorem eq_nearest_of_rounded {s : ℝ} (h : rounded x = (s : ℝ)) : s = nearest .binary32 x := by
  rw [rounded, nearestExt_coe, fit] at h
  split_ifs at h
  · exact absurd h (EReal.top_ne_coe s)
  · exact absurd h (EReal.bot_ne_coe s)
  · exact (EReal.coe_eq_coe_iff.1 h).symm

theorem denotes_top_iff : Denotes a ⊤ ↔ a.toModel.unpack = .infinity .positive := by
  refine ⟨fun h => Unpacked.Holds.eq_of_ne_zero h (.top _) EReal.top_ne_zero, fun h => ?_⟩
  rw [Denotes, h]
  exact Unpacked.Holds.top _

/-- An infinity stays one. -/
theorem Denotes.top_mul (ha : Denotes a ⊤) (hb : Denotes b y) (hy : 0 < y) :
    Denotes (a * b) ⊤ := by
  rw [denotes_top_iff] at ha ⊢
  change UnpackedFloat.unpack _ (UnpackedFloat.pack _ (.mul _ a.toModel.unpack _)) = _
  rw [ha, Unpacked.top_mul .binary32 hb hy]
  exact Unpacked.unpack_packedInfinity _ _

theorem Denotes.top_div {x : ℝ} (ha : Denotes a ⊤) (hb : Denotes b x) (hx : 0 < x) :
    Denotes (a / b) ⊤ := by
  rw [denotes_top_iff] at ha ⊢
  change UnpackedFloat.unpack _ (UnpackedFloat.pack _ (.div _ a.toModel.unpack _)) = _
  rw [ha, Unpacked.top_div .binary32 hb hx]
  exact Unpacked.unpack_packedInfinity _ _

/-- There is room for every number that is not rounded to infinity. -/
theorem rounded_coe_of_lt {x : ℝ} (h₀ : 0 ≤ x) (h : x < 2 ^ 128 - 2 ^ 103) :
    rounded x = (nearest .binary32 x : ℝ) := by
  have hlt : |nearest .binary32 x| < limit .binary32 := by
    rw [limit_binary32, abs_of_nonneg (nearest_nonneg _ h₀)]
    exact nearest_lt_limit_iff.2 h
  rw [rounded, nearestExt_coe, fit_coe hlt]

theorem rounded_eq_top {x : ℝ} (h : 2 ^ 128 ≤ x) : rounded x = ⊤ := by
  rw [← not_lt_top_iff, rounded_lt_top_iff, not_lt]
  exact (sub_le_self _ (by positivity)).trans h

/-- The square of a number from `2 ^ 64` on is too large. -/
theorem Denotes.mul_self_eq_top {x : ℝ} (ha : Denotes a x) (hx : 2 ^ 64 ≤ |x|) :
    Denotes (a * a) ⊤ := by
  have hsquare : (2 : ℝ) ^ 128 ≤ x * x := by
    rw [← abs_mul_abs_self x]
    nlinarith
  exact rounded_eq_top hsquare ▸ ha.mul ha

/-! ## Products of positive factors -/

/-- The exact product is rounded to a positive finite number. -/
def ProductFits (a b : Float32) : Prop :=
  ∃ x y : ℝ, Denotes a x ∧ Denotes b y ∧ InRange (x * y)

theorem exists_real_of_isPositiveFinite (h : isPositiveFinite a = true) :
    ∃ x : ℝ, Denotes a x ∧ 0 < x := by
  obtain ⟨hpos, hfinite⟩ := isPositiveFinite_iff.1 h
  obtain ⟨x, hx⟩ := isFinite_iff.1 hfinite
  exact ⟨x, hx, EReal.coe_pos.1 ((denotes_zero.lt_iff hx).1 hpos)⟩

theorem eq_top_or_exists_real (h : 0 ≤ a) : Denotes a ⊤ ∨ ∃ x : ℝ, Denotes a x ∧ 0 ≤ x := by
  obtain ⟨y, hy, hy₀⟩ := exists_denotes_of_nonneg h
  induction y with
  | bot => exact absurd hy₀ (not_le.2 EReal.bot_lt_zero)
  | top => exact .inl hy
  | coe x => exact .inr ⟨x, hy, EReal.coe_nonneg.1 hy₀⟩

protected theorem mul_nonneg (ha : 0 ≤ a) (hb : isPositiveFinite b = true) : 0 ≤ a * b := by
  obtain ⟨y, hy, hy₀⟩ := exists_real_of_isPositiveFinite hb
  rcases eq_top_or_exists_real ha with htop | ⟨x, hx, hx₀⟩
  · exact (htop.top_mul hy (EReal.coe_pos.2 hy₀)).nonneg le_top
  · have hproduct : 0 ≤ x * y := mul_nonneg hx₀ hy₀.le
    exact (hx.mul hy).nonneg (rounded_nonneg (EReal.coe_nonneg.2 hproduct))

protected theorem mul_self_nonneg (ha : 0 ≤ a) : 0 ≤ a * a := by
  rcases eq_top_or_exists_real ha with htop | ⟨x, hx, -⟩
  · exact (htop.top_mul htop EReal.zero_lt_top).nonneg le_top
  · exact (hx.mul hx).nonneg (rounded_nonneg (EReal.coe_nonneg.2 (mul_self_nonneg x)))

theorem square_nonneg (h : a.isNaN = false) : 0 ≤ a * a :=
  mul_abs_self a ▸ Single.mul_self_nonneg (abs_nonneg h)

protected theorem div_nonneg (ha : 0 ≤ a) (hb : isPositiveFinite b = true) : 0 ≤ a / b := by
  obtain ⟨y, hy, hy₀⟩ := exists_real_of_isPositiveFinite hb
  rcases eq_top_or_exists_real ha with htop | ⟨x, hx, hx₀⟩
  · exact (htop.top_div hy hy₀).nonneg le_top
  · have hquotient : 0 ≤ x / y := div_nonneg hx₀ hy₀.le
    exact (hx.div hy hy₀.ne').nonneg (rounded_nonneg (EReal.coe_nonneg.2 hquotient))

theorem isPositiveFinite_mul_iff (ha : 0 ≤ a) (hb : isPositiveFinite b = true) :
    isPositiveFinite (a * b) = true ↔ ProductFits a b := by
  obtain ⟨y, hy, hy₀⟩ := exists_real_of_isPositiveFinite hb
  rcases eq_top_or_exists_real ha with htop | ⟨x, hx, hx₀⟩
  · rw [(htop.top_mul hy (EReal.coe_pos.2 hy₀)).isPositiveFinite_iff]
    refine iff_of_false (fun h => lt_irrefl _ h.2) ?_
    rintro ⟨x, -, hx, -⟩
    exact EReal.top_ne_coe x (htop.unique hx)
  · rw [(hx.mul hy).isPositiveFinite_iff_inRange]
    refine ⟨fun h => ⟨x, y, hx, hy, h⟩, ?_⟩
    rintro ⟨x', y', hx', hy', h⟩
    rwa [EReal.coe_eq_coe_iff.1 (hx.unique hx'), EReal.coe_eq_coe_iff.1 (hy.unique hy')]

/-- Nothing fits with a factor that is zero or infinite. -/
theorem ProductFits.isPositiveFinite (h : ProductFits a b) (hb : isPositiveFinite b = true) :
    isPositiveFinite a = true := by
  obtain ⟨x, y, hx, hy, hrange, -⟩ := h
  obtain ⟨y', hy', hpos⟩ := exists_real_of_isPositiveFinite hb
  rw [← EReal.coe_eq_coe_iff.1 (hy.unique hy')] at hpos
  have hproduct : 0 < x * y := lt_trans (by positivity) hrange
  rw [hx.isPositiveFinite_iff]
  exact ⟨EReal.coe_pos.2 (pos_of_mul_pos_left hproduct hpos.le), EReal.coe_lt_top x⟩

/-! ## Reciprocals of lengths -/

theorem denotes_zero_mul {x : ℝ} (ha : Denotes a 0) (hb : Denotes b x) : Denotes (a * b) 0 := by
  have hproduct := Denotes.mul (EReal.coe_zero ▸ ha) hb
  rwa [zero_mul, EReal.coe_zero, rounded_zero] at hproduct

theorem denotes_top : Denotes (1 / 0) ⊤ := denotes_top_iff.2 (by rfl)

theorem not_isFinite_of_top (h : Denotes a ⊤) : a.isFinite = false := by
  refine Bool.eq_false_iff.2 fun hfinite => ?_
  obtain ⟨x, hx⟩ := isFinite_iff.1 hfinite
  exact EReal.coe_ne_top x (hx.unique h)

/-- The root of a positive number is far from the ends of the range. -/
theorem Denotes.sqrt_bounds {x : ℝ} (ha : Denotes a x) (hx : 0 < x) :
    2 ^ (-75 : ℤ) ≤ √x ∧ √x ≤ 2 ^ 64 := by
  obtain ⟨hlower, hupper⟩ : InRange x := by
    rw [← (ha.rounded_eq.symm ▸ ha : Denotes a (rounded x)).isPositiveFinite_iff_inRange,
      ha.isPositiveFinite_iff]
    exact ⟨EReal.coe_pos.2 hx, EReal.coe_lt_top x⟩
  constructor
  · refine Real.le_sqrt_of_sq_le (le_trans (le_of_eq ?_) hlower.le)
    norm_num
  · refine Real.sqrt_le_iff.2 ⟨by positivity, hupper.le.trans ?_⟩
    norm_num

/-- So its reciprocal is not far from the exact one: each of the two roundings is within a factor of
    two. -/
theorem Denotes.exists_inv_sqrt {x : ℝ} (ha : Denotes a x) (hx : 0 < x) :
    ∃ r : ℝ, Denotes (1 / a.sqrt) r ∧ 1 ≤ 4 * (r * √x) ∧ r * √x ≤ 4 := by
  have hroot := ha.sqrt_bounds hx
  have hsqrt := ha.sqrt hx.le
  rw [rounded_coe (by rw [abs_of_nonneg (Real.sqrt_nonneg x)]; linarith [hroot.2])] at hsqrt
  have hleast : (2 : ℝ) ^ Format.binary32.minExponent ≤ 2 ^ (-75 : ℤ) :=
    zpow_le_zpow_right₀ one_le_two (by decide)
  have hsqrt_le := nearest_le_two_mul .binary32 (Real.sqrt_nonneg x)
  have hle_sqrt := le_two_mul_nearest (hleast.trans hroot.1)
  set root := nearest .binary32 √x
  have hpos : 0 < root := by linarith [(by positivity : (0 : ℝ) < 2 ^ (-75 : ℤ)), hroot.1]
  have hinv : 2 ^ (-75 : ℤ) ≤ 1 / root ∧ 1 / root ≤ 2 ^ 127 := by
    rw [le_div_iff₀ hpos, div_le_iff₀ hpos]
    norm_num at hroot ⊢
    constructor <;> linarith
  have hdiv := denotes_one.div hsqrt hpos.ne'
  rw [rounded_coe (by rw [abs_of_pos (by positivity)]; exact hinv.2)] at hdiv
  have hinv_le := nearest_le_two_mul .binary32 (one_div_pos.2 hpos).le
  have hle_inv := le_two_mul_nearest (hleast.trans hinv.1)
  have hr : 0 ≤ nearest .binary32 (1 / root) := nearest_nonneg _ (one_div_pos.2 hpos).le
  refine ⟨_, hdiv, ?_, ?_⟩
  · calc 1 = 1 / root * root := (div_mul_cancel₀ 1 hpos.ne').symm
      _ ≤ 2 * nearest .binary32 (1 / root) * (2 * √x) :=
          mul_le_mul hle_inv hsqrt_le hpos.le (by positivity)
      _ = 4 * (nearest .binary32 (1 / root) * √x) := by ring
  · calc nearest .binary32 (1 / root) * √x ≤ 2 * (1 / root) * (2 * root) :=
          mul_le_mul hinv_le hle_sqrt (Real.sqrt_nonneg x) (by positivity)
      _ = 4 := by field_simp; norm_num

/-- The reciprocal of an infinite length is zero. -/
theorem Denotes.inv_sqrt_top (ha : Denotes a ⊤) : Denotes (1 / a.sqrt) (0 : ℝ) := by
  rw [ha.eq_of_ne_zero denotes_top EReal.top_ne_zero]
  exact denotes_zero.of_beq (by decide +kernel)

/-- Zero times the reciprocal of a length is zero, even where the length is infinite. -/
theorem denotes_zero_mul_inv_sqrt (h : 0 < a) : Denotes (0 * (1 / a.sqrt)) 0 := by
  rcases eq_top_or_exists_real (Single.le_of_lt h) with htop | ⟨x, hx, -⟩
  · exact denotes_zero_mul denotes_zero htop.inv_sqrt_top
  · have hx₀ : 0 < x := EReal.coe_pos.1 ((denotes_zero.lt_iff hx).1 h)
    obtain ⟨r, hr, -⟩ := hx.exists_inv_sqrt hx₀
    exact denotes_zero_mul denotes_zero hr

end Single

end SignedDistance
