import SignedDistance.Field.Gradient
import SignedDistance.Proofs.Number.Special

set_option autoImplicit false

/-! # Normals where there is no place

A point whose lanes are NaNs is the same point after any step, so all samples about it are one, and
no normal comes of them: every lane of the estimate is zero or a NaN. Samples may be so large that
their sum has an infinite lane, but such a lane does not outlast the division by its length. -/

namespace SignedDistance

/-! ## Numbers that come to nothing -/

namespace Single

variable {a b c d : Float32} {x : ℝ}

/-- A zero, or no number. -/
def Void (a : Float32) : Prop := ∀ y, Denotes a y → y = 0

theorem void_of_isNaN (h : a.isNaN = true) : Void a := fun _ hy => by
  rw [hy.isNaN] at h
  cases h

theorem Denotes.void (h : Denotes a 0) : Void a := fun _ hy => hy.unique h

theorem void_iff : Void a ↔ a.isNaN = true ∨ Denotes a 0 := by
  constructor
  · intro h
    rcases number?_cases a with ⟨ha, -⟩ | ⟨y, hy, -⟩
    · exact .inl ha
    · exact .inr (h y hy ▸ hy)
  · rintro (h | h)
    · exact void_of_isNaN h
    · exact h.void

theorem Void.not_pos (h : Void a) : ¬0 < a := by
  intro hlt
  obtain ⟨y, z, hy, hz, hyz⟩ := exists_denotes_of_lt hlt
  rw [h z hz, hy.unique denotes_zero] at hyz
  exact lt_irrefl _ hyz

theorem Void.not_neg (h : Void a) : ¬a < 0 := by
  intro hlt
  obtain ⟨y, z, hy, hz, hyz⟩ := exists_denotes_of_lt hlt
  rw [h y hy, hz.unique denotes_zero] at hyz
  exact lt_irrefl _ hyz

theorem Void.add (ha : Void a) (hb : Void b) : Void (a + b) := by
  rcases void_iff.1 ha with ha | ha
  · exact void_of_isNaN (isNaN_add (.inl ha))
  rcases void_iff.1 hb with hb | hb
  · exact void_of_isNaN (isNaN_add (.inr hb))
  have hsum := ha.add hb (not_opposite_coe 0 0)
  rw [add_zero, rounded_zero] at hsum
  exact hsum.void

theorem Void.mul (h : Void a) (b : Float32) : Void (a * b) := by
  rcases void_iff.1 h with ha | ha
  · exact void_of_isNaN (isNaN_mul (.inl ha))
  by_cases hb : b.isFinite = true
  · obtain ⟨x, hx⟩ := isFinite_iff.1 hb
    exact (denotes_zero_mul ha hx).void
  · have hnan : ∀ z ∈ [0, -0], ∀ b ∈ [0 / 0, 1 / 0, -(1 / 0)], (z * b : Float32).isNaN = true := by
      decide +kernel
    exact void_of_isNaN (hnan a ha.mem_of_zero b (mem_of_not_isFinite hb))

theorem void_sub_self (a : Float32) : Void (a - a) := by
  by_cases ha : a.isFinite = true
  · obtain ⟨x, hx⟩ := isFinite_iff.1 ha
    have hdiff := hx.sub hx (not_opposite_coe x _)
    rw [← EReal.coe_sub, sub_self, EReal.coe_zero, rounded_zero] at hdiff
    exact hdiff.void
  · have hnan : ∀ b ∈ [0 / 0, 1 / 0, -(1 / 0)], (b - b : Float32).isNaN = true := by decide +kernel
    exact void_of_isNaN (hnan a (mem_of_not_isFinite ha))

/-! ## Infinities -/

/-- One of the infinities. -/
def Infinite (a : Float32) : Prop := a = 1 / 0 ∨ a = -(1 / 0)

theorem Infinite.add (ha : Infinite a) (hb : Denotes b x) : Infinite (a + b) := by
  rcases ha with rfl | rfl
  · have hsum := denotes_top.add hb (by simp [Opposite])
    rw [EReal.top_add_coe, denotes_top.rounded_eq] at hsum
    exact .inl (hsum.eq_of_ne_zero denotes_top EReal.top_ne_zero)
  · have hsum := denotes_bot.add hb (by simp [Opposite])
    rw [EReal.bot_add, denotes_bot.rounded_eq] at hsum
    exact .inr (hsum.eq_of_ne_zero denotes_bot EReal.bot_ne_zero)

/-- A sum that a single stands for is exact. -/
theorem Denotes.add_exact {x y z : ℝ} (ha : Denotes a x) (hb : Denotes b y) (hc : Denotes c z)
    (h : x + y = z) : Denotes (a + b) z := by
  rw [← hc.rounded_eq, ← h, EReal.coe_add]
  exact ha.add hb (not_opposite_coe x _)

/-- Doubling is exact, unless it leads out of the range. -/
theorem Denotes.add_same (ha : Denotes a x) (hb : Denotes b x) :
    Denotes (a + b) (2 * x : ℝ) ∨ Infinite (a + b) := by
  have hdouble : Representable .binary32 (2 * x) := by
    rw [← ha.nearest_eq, mul_comm, ← pow_one 2]
    exact (representable_nearest .binary32 x).mul_two_pow 1
  have hsum := ha.add hb (not_opposite_coe x _)
  rw [← EReal.coe_add, ← two_mul, rounded, nearestExt_coe, nearest_eq_self hdouble, fit] at hsum
  split_ifs at hsum
  · exact .inr (.inl (hsum.eq_of_ne_zero denotes_top EReal.top_ne_zero))
  · exact .inr (.inr (hsum.eq_of_ne_zero denotes_bot EReal.bot_ne_zero))
  · exact .inl hsum

end Single

/-! ## Constant fields -/

/-- Every lane is a zero, or no number. -/
structure Vec3.Void (v : Vec3) : Prop where
  x : Single.Void v.x
  y : Single.Void v.y
  z : Single.Void v.z

namespace Vec3.Void

variable {v w : Vec3}

theorem scale (h : v.Void) (a : Float32) : (v.scale a).Void := ⟨h.x.mul a, h.y.mul a, h.z.mul a⟩

theorem dot (h : v.Void) (w : Vec3) : Single.Void (v.dot w) :=
  ((h.x.mul w.x).add (h.y.mul w.y)).add (h.z.mul w.z)

theorem zero : Vec3.zero.Void :=
  ⟨Single.denotes_zero.void, Single.denotes_zero.void, Single.denotes_zero.void⟩

theorem normalizeOrZero (h : v.Void) : v.normalizeOrZero.Void := by
  unfold Vec3.normalizeOrZero
  extract_lets r
  split_ifs
  · exact h.scale r
  · exact zero

end Vec3.Void

/-- One infinite lane makes the length infinite, and what is left of the lane is no number. -/
theorem Vec3.isNaN_normalize_y {v : Vec3} (hx : Single.Void v.x) (hy : Single.Infinite v.y)
    (hz : Single.Void v.z) (hpos : 0 < v.lengthSquared) : v.normalize.y.isNaN = true := by
  have hsquare : v.y * v.y = 1 / 0 := by
    rcases hy with hy | hy <;> rw [hy] <;> decide +kernel
  have hlength : v.lengthSquared = v.x * v.x + 1 / 0 + v.z * v.z := by
    rw [← hsquare]
    rfl
  have hnumber := Single.isNaN_right_of_le (Single.le_of_lt hpos)
  rw [hlength] at hnumber
  have hx₀ : Single.Denotes (v.x * v.x) (0 : ℝ) := by
    refine (Single.void_iff.1 (hx.mul v.x)).resolve_left fun hnan => ?_
    rw [Single.isNaN_add (.inl (Single.isNaN_add (.inl hnan)))] at hnumber
    cases hnumber
  have hz₀ : Single.Denotes (v.z * v.z) (0 : ℝ) := by
    refine (Single.void_iff.1 (hz.mul v.z)).resolve_left fun hnan => ?_
    rw [Single.isNaN_add (.inr hnan)] at hnumber
    cases hnumber
  have hsum : v.lengthSquared = 1 / 0 := by
    have h := (hx₀.add Single.denotes_top (Single.not_opposite_coe 0 _)).add hz₀
    rw [EReal.coe_add_top, Single.denotes_top.rounded_eq, EReal.top_add_coe,
      Single.denotes_top.rounded_eq, ← hlength] at h
    exact (h (by simp [Opposite])).eq_of_ne_zero Single.denotes_top EReal.top_ne_zero
  change (v.y * (1 / v.lengthSquared.sqrt)).isNaN = true
  rw [hsum]
  rcases hy with hy | hy <;> rw [hy] <;> decide +kernel

namespace Field

variable (d : Float32) (p : Vec3) (step : Float32)

/-- Samples that are all the same cancel out, unless the sum of two of them is infinite. -/
theorem cornerSum_constant : Single.Void ((constant d).cornerSum p step).x ∧
    (Single.Void ((constant d).cornerSum p step).y ∨
      Single.Infinite ((constant d).cornerSum p step).y) ∧
    Single.Void ((constant d).cornerSum p step).z := by
  have hsum : (constant d).cornerSum p step = ⟨0 + 1 * d + -1 * d + -1 * d + 1 * d,
      0 + -1 * d + -1 * d + 1 * d + 1 * d, 0 + -1 * d + 1 * d + -1 * d + 1 * d⟩ := rfl
  rw [hsum]
  by_cases hd : d.isFinite = true
  · obtain ⟨x, hx⟩ := Single.isFinite_iff.1 hd
    have hpos : Single.Denotes (1 * d) x := by
      have h := Single.denotes_one.mul hx
      rwa [one_mul, hx.rounded_eq] at h
    have hneg : Single.Denotes (-1 * d) (-x : ℝ) := by
      have h := Single.denotes_neg_one.mul hx
      rwa [neg_one_mul, EReal.coe_neg, Single.rounded_neg, hx.rounded_eq, ← EReal.coe_neg] at h
    have hzero : Single.Denotes 0 (0 : ℝ) := Single.denotes_zero
    have hfirst := hzero.add_exact hneg hneg (by ring)
    refine ⟨?_, ?_, ?_⟩
    · exact ((((hzero.add_exact hpos hpos (by ring)).add_exact hneg hzero (by ring)).add_exact
        hneg hneg (by ring)).add_exact hpos hzero (by ring)).void
    · rcases hfirst.add_same hneg with hdouble | hinf
      · exact .inl ((hdouble.add_exact hpos hneg (by ring)).add_exact hpos hzero (by ring)).void
      · exact .inr ((hinf.add hpos).add hpos)
    · exact (((hfirst.add_exact hpos hzero (by ring)).add_exact hneg hneg (by ring)).add_exact hpos
        hzero (by ring)).void
  · have hnan : ∀ d ∈ [0 / 0, 1 / 0, -(1 / 0)],
        (0 + 1 * d + -1 * d + -1 * d + 1 * d : Float32).isNaN = true ∧
          (0 + -1 * d + -1 * d + 1 * d + 1 * d : Float32).isNaN = true ∧
            (0 + -1 * d + 1 * d + -1 * d + 1 * d : Float32).isNaN = true := by
      decide +kernel
    obtain ⟨hx, hy, hz⟩ := hnan d (Single.mem_of_not_isFinite hd)
    exact ⟨Single.void_of_isNaN hx, .inl (Single.void_of_isNaN hy), Single.void_of_isNaN hz⟩

/-- **A constant field has no normal**, however large the constant is. -/
theorem void_estimate_constant : ((constant d).estimate p step).Void := by
  obtain ⟨hx, hy, hz⟩ := cornerSum_constant d p step
  unfold estimate
  extract_lets n
  split_ifs with hpos
  · rcases hy with hy | hy
    · exact absurd hpos (Vec3.Void.dot ⟨hx, hy, hz⟩ n).not_pos
    · exact ⟨hx.mul _, Single.void_of_isNaN (Vec3.isNaN_normalize_y hx hy hz hpos), hz.mul _⟩
  · exact Vec3.Void.normalizeOrZero
      ⟨Single.void_sub_self d, Single.void_sub_self d, Single.void_sub_self d⟩

end Field

/-! ## Lost points -/

/-- No lane is a number. -/
structure Vec3.Lost (p : Vec3) : Prop where
  x : p.x.isNaN = true
  y : p.y.isNaN = true
  z : p.z.isNaN = true

/-- No step leads away from a lost point. -/
theorem Vec3.Lost.add_eq {p : Vec3} (h : p.Lost) (v : Vec3) : p + v = p := by
  have hx := Single.eq_of_isNaN (Single.isNaN_add (b := v.x) (.inl h.x)) h.x
  have hy := Single.eq_of_isNaN (Single.isNaN_add (b := v.y) (.inl h.y)) h.y
  have hz := Single.eq_of_isNaN (Single.isNaN_add (b := v.z) (.inl h.z)) h.z
  change (⟨p.x + v.x, p.y + v.y, p.z + v.z⟩ : Vec3) = p
  rw [hx, hy, hz]

namespace Field

variable {field : Field} {p : Vec3}

/-- At a lost point every field is constant. -/
theorem estimate_of_lost (h : p.Lost) (step : Float32) :
    field.estimate p step = (constant (field p)).estimate p step := by
  simp only [estimate, cornerSum, corners, List.foldl, forwardDifferences, h.add_eq, constant]

/-- **Nothing is approached from a lost point.** -/
theorem gradient_dot_not_neg_of_lost (h : p.Lost) (dir : Vec3) :
    ¬(field.gradient p).dot dir < 0 := by
  rw [gradient, estimate_of_lost h]
  exact ((void_estimate_constant _ _ _).dot dir).not_neg

end Field

end SignedDistance
