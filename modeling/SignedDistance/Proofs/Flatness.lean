import SignedDistance.Proofs.Gradient
import SignedDistance.Proofs.Normal

set_option autoImplicit false

/-! # Where an estimate finds no normal

A normal is estimated from sums and differences of samples, and what decides whether these are of
use is their squared length, a single like any other. It vanishes for samples that differ by little,
and has no room for samples that differ by much; the estimate is then zero although the field is not
flat. In between, it is zero exactly where the samples show no slope at all. -/

namespace SignedDistance

namespace Single

variable {a b : Float32}

theorem isNaN_of_isFinite (h : a.isFinite = true) : a.isNaN = false := by
  obtain ⟨x, hx⟩ := isFinite_iff.1 h
  exact hx.isNaN

/-- A finite number keeps a sum from being none. -/
theorem isNaN_add_of_isFinite (ha : a.isNaN = false) (hb : b.isFinite = true) :
    (a + b).isNaN = false := by
  obtain ⟨y, hy⟩ := exists_denotes ha
  obtain ⟨x, hx⟩ := isFinite_iff.1 hb
  have hne : ¬Opposite y x := by simp [Opposite]
  exact (hy.add hx hne).isNaN

theorem isNaN_sub_of_isFinite (ha : a.isFinite = true) (hb : b.isFinite = true) :
    (a - b).isNaN = false := by
  rw [Single.sub_eq_add_neg]
  exact isNaN_add_of_isFinite (isNaN_of_isFinite ha) (isFinite_neg b ▸ hb)

/-- A factor between zero and one leaves a finite number finite. -/
theorem isFinite_mul_of_le_one (ha₀ : 0 ≤ a) (ha : a ≤ 1) (hb : b.isFinite = true) :
    (a * b).isFinite = true := by
  obtain ⟨x, hx, hx₀⟩ := exists_real (isFinite_of_le ha₀ ha (isFinite_iff.2 ⟨1, denotes_one⟩)) ha₀
  obtain ⟨y, hy⟩ := isFinite_iff.1 hb
  have hx₁ : x ≤ 1 := EReal.coe_le_coe_iff.1 ((hx.le_iff denotes_one).1 ha)
  have hle : |x * y| ≤ |y| := by
    rw [abs_mul, abs_of_nonneg hx₀]
    exact mul_le_of_le_one_left (by positivity) hx₁
  have hupper : rounded (x * y : ℝ) ≤ (|y| : ℝ) := by
    rw [← hy.abs_real.rounded_eq]
    exact rounded_mono (EReal.coe_le_coe_iff.2 (le_of_abs_le hle))
  have hlower : (-|y| : ℝ) ≤ rounded (x * y : ℝ) := by
    rw [EReal.coe_neg, ← hy.abs_real.neg.rounded_eq, ← EReal.coe_neg]
    exact rounded_mono (EReal.coe_le_coe_iff.2 (neg_le_of_abs_le hle))
  have hproduct := hx.mul hy
  lift rounded (x * y : ℝ) to ℝ using
    ⟨ne_top_of_le_ne_top (EReal.coe_ne_top _) hupper,
      ne_bot_of_le_ne_bot (EReal.coe_ne_bot _) hlower⟩ with z
  exact isFinite_iff.2 ⟨z, hproduct⟩

/-! ## Infinite lanes -/

theorem infinite_of_not_isFinite (hnan : a.isNaN = false) (h : ¬a.isFinite = true) :
    Infinite a := by
  have hmem := mem_of_not_isFinite h
  simp only [List.mem_cons, List.not_mem_nil, or_false] at hmem
  rcases hmem with rfl | htop | hbot
  · exact absurd hnan (by decide +kernel)
  · exact .inl htop
  · exact .inr hbot

theorem Infinite.mul_self (h : Infinite a) : Denotes (a * a) ⊤ := by
  have hsquare : a * a = 1 / 0 := by rcases h with rfl | rfl <;> decide +kernel
  rw [hsquare]
  exact denotes_top

theorem Infinite.isNaN_mul_zero (h : Infinite a) (hb : Denotes b 0) : (a * b).isNaN = true := by
  have hnan : ∀ b ∈ [0, -0], (1 / 0 * b : Float32).isNaN = true ∧
      (-(1 / 0) * b : Float32).isNaN = true := by decide +kernel
  rcases h with rfl | rfl
  · exact (hnan b hb.mem_of_zero).1
  · exact (hnan b hb.mem_of_zero).2

theorem Denotes.top_of_le (ha : Denotes a ⊤) (h : a ≤ b) : Denotes b ⊤ := by
  obtain ⟨y, hy⟩ := exists_denotes (isNaN_right_of_le h)
  rwa [top_le_iff.1 ((ha.le_iff hy).1 h)] at hy

/-- The reciprocal of a root is of use if what the root is taken of is. -/
theorem isPositiveFinite_inv_sqrt_iff (h : 0 ≤ a) :
    isPositiveFinite (1 / a.sqrt) = true ↔ isPositiveFinite a = true := by
  rcases eq_top_or_exists_real h with htop | ⟨s, hs, hs₀⟩
  · rw [htop.inv_sqrt_top.isPositiveFinite_iff, htop.isPositiveFinite_iff]
    exact iff_of_false (fun hboth => lt_irrefl _ hboth.1) fun hboth => lt_irrefl _ hboth.2
  · rcases hs₀.eq_or_lt with rfl | hpos
    · have huseless : ∀ s ∈ [0, -0], isPositiveFinite (1 / Float32.sqrt s) = false ∧
          isPositiveFinite s = false := by decide +kernel
      obtain ⟨hinv, hself⟩ := huseless a hs.mem_of_zero
      rw [hinv, hself]
    · obtain ⟨r, hr, hlower, -⟩ := hs.exists_inv_sqrt hpos
      rw [hr.isPositiveFinite_iff, hs.isPositiveFinite_iff]
      refine iff_of_true ⟨EReal.coe_pos.2 ?_, EReal.coe_lt_top r⟩
        ⟨EReal.coe_pos.2 hpos, EReal.coe_lt_top s⟩
      by_contra hle
      have hproduct := mul_nonpos_of_nonpos_of_nonneg (not_lt.1 hle) (Real.sqrt_nonneg s)
      linarith

end Single

/-! ## Lengths of vectors of numbers -/

namespace Vec3

/-- The lanes are numbers, some of them perhaps infinite. -/
structure Numbers (v : Vec3) : Prop where
  x : v.x.isNaN = false
  y : v.y.isNaN = false
  z : v.z.isNaN = false

variable {v w : Vec3} {a b c : ℝ}

theorem Numbers.add (hv : v.Numbers) (hw : w.isFinite = true) : (v + w).Numbers := by
  rw [isFinite, Bool.and_eq_true, Bool.and_eq_true] at hw
  exact ⟨Single.isNaN_add_of_isFinite hv.x hw.1.1, Single.isNaN_add_of_isFinite hv.y hw.1.2,
    Single.isNaN_add_of_isFinite hv.z hw.2⟩

theorem Numbers.squares_le (h : v.Numbers) : v.x * v.x ≤ v.lengthSquared ∧
    v.y * v.y ≤ v.lengthSquared ∧ v.z * v.z ≤ v.lengthSquared := by
  have hx := Single.square_nonneg h.x
  have hy := Single.square_nonneg h.y
  have hz := Single.square_nonneg h.z
  have hxy := Single.le_add_right hx hy
  have hsum := Single.le_add_right (Single.le_trans hx hxy) hz
  exact ⟨Single.le_trans hxy hsum, Single.le_trans (Single.le_add_left hx hy) hsum,
    Single.le_add_left (Single.le_trans hx hxy) hz⟩

theorem Numbers.lengthSquared_nonneg (h : v.Numbers) : 0 ≤ v.lengthSquared :=
  Single.le_trans (Single.square_nonneg h.x) h.squares_le.1

/-- A lane that is infinite makes the length infinite. -/
theorem Numbers.exists_infinite (h : v.Numbers) (hfinite : ¬v.isFinite = true) :
    Single.Denotes v.lengthSquared ⊤ ∧
      (Single.Infinite v.x ∨ Single.Infinite v.y ∨ Single.Infinite v.z) := by
  have hlane : Single.Infinite v.x ∨ Single.Infinite v.y ∨ Single.Infinite v.z := by
    by_contra! hno
    refine hfinite ?_
    rw [isFinite, Bool.and_eq_true, Bool.and_eq_true]
    exact ⟨⟨Decidable.not_not.1 (mt (Single.infinite_of_not_isFinite h.x) hno.1),
      Decidable.not_not.1 (mt (Single.infinite_of_not_isFinite h.y) hno.2.1)⟩,
      Decidable.not_not.1 (mt (Single.infinite_of_not_isFinite h.z) hno.2.2)⟩
  obtain ⟨hx, hy, hz⟩ := h.squares_le
  refine ⟨?_, hlane⟩
  rcases hlane with hinf | hinf | hinf
  · exact hinf.mul_self.top_of_le hx
  · exact hinf.mul_self.top_of_le hy
  · exact hinf.mul_self.top_of_le hz

theorem Numbers.isFinite_of_lengthSquared (h : v.Numbers)
    (hfinite : v.lengthSquared.isFinite = true) : v.isFinite = true := by
  by_contra hinf
  rw [Single.not_isFinite_of_top (h.exists_infinite hinf).1] at hfinite
  cases hfinite

/-- Division by its length brings a vector to zero exactly if the lanes are finite and the length is
    not; what is left of an infinite lane is no number. -/
theorem Numbers.normalize_isZero_iff (h : v.Numbers) (hpos : 0 < v.lengthSquared) :
    v.normalize.isZero = true ↔ v.isFinite = true ∧ v.lengthSquared.isFinite = false := by
  by_cases hfinite : v.isFinite = true
  · obtain ⟨a, b, c, hv⟩ := isFinite_iff.1 hfinite
    rcases Single.eq_top_or_exists_real h.lengthSquared_nonneg with htop | ⟨s, hs, -⟩
    · exact iff_of_true (hv.normalize_isZero htop) ⟨hfinite, Single.not_isFinite_of_top htop⟩
    · have hs₀ : 0 < s := EReal.coe_pos.1 ((Single.denotes_zero.lt_iff hs).1 hpos)
      have hroom := Single.isFinite_iff.2 ⟨s, hs⟩
      simp [(hv.normalize_usable hs hs₀).2, hroom]
  · refine iff_of_false (fun hzero => ?_) fun hboth => hfinite hboth.1
    obtain ⟨htop, hlane⟩ := h.exists_infinite hfinite
    have hzero' := isZero_iff.1 hzero
    have hinv : Single.Denotes (1 / v.length) 0 := htop.inv_sqrt_top
    rcases hlane with hinf | hinf | hinf
    · exact absurd (hinf.isNaN_mul_zero hinv) (Bool.eq_false_iff.1 hzero'.x.isNaN)
    · exact absurd (hinf.isNaN_mul_zero hinv) (Bool.eq_false_iff.1 hzero'.y.isNaN)
    · exact absurd (hinf.isNaN_mul_zero hinv) (Bool.eq_false_iff.1 hzero'.z.isNaN)

/-- Where the length is of no use, zero is given in place of the vector. -/
theorem Numbers.normalizeOrZero_isZero_iff (h : v.Numbers) :
    v.normalizeOrZero.isZero = true ↔ Single.isPositiveFinite v.lengthSquared = false := by
  have hiff : Single.isPositiveFinite (1 / v.length) = true ↔
      Single.isPositiveFinite v.lengthSquared = true :=
    Single.isPositiveFinite_inv_sqrt_iff h.lengthSquared_nonneg
  cases huse : Single.isPositiveFinite v.lengthSquared with
  | false =>
    rw [normalizeOrZero, if_neg (by rw [hiff, huse]; exact Bool.false_ne_true)]
    exact iff_of_true (by decide +kernel) rfl
  | true =>
    obtain ⟨s, hs, hpos⟩ := Single.exists_real_of_isPositiveFinite huse
    obtain ⟨a, b, c, hv⟩ := isFinite_iff.1
      (h.isFinite_of_lengthSquared (Single.isFinite_iff.2 ⟨s, hs⟩))
    rw [normalizeOrZero, if_pos (hiff.2 huse)]
    exact iff_of_false (Bool.eq_false_iff.1 (hv.normalize_usable hs hpos).2) (by simp)

/-! ## Sizes of use -/

/-- All squares of lanes are rounded to zero. -/
def TooShort (v : Vec3) : Prop := ¬0 < v.lengthSquared

/-- There is no room for the squared length. -/
def TooLong (v : Vec3) : Prop := v.lengthSquared.isFinite = false

/-- The greatest lane is zero, or neither so small nor so large that the length is of no use. -/
def Moderate (v : Vec3) : Prop :=
  ∃ a b c : ℝ, v.Denotes a b c ∧ Single.Moderate (max |a| (max |b| |c|))

theorem isPositiveFinite_lengthSquared_iff :
    Single.isPositiveFinite v.lengthSquared = false ↔ v.TooShort ∨ v.TooLong := by
  rw [← Bool.not_eq_true, Single.isPositiveFinite_iff, not_and_or, Bool.not_eq_true]
  rfl

/-- Nothing is too short and too long at the same time. -/
theorem Numbers.not_tooShort (h : v.Numbers) (hlong : v.TooLong) : ¬v.TooShort := by
  rcases Single.eq_top_or_exists_real h.lengthSquared_nonneg with htop | ⟨s, hs, -⟩
  · exact not_not.2 ((Single.denotes_zero.lt_iff htop).2 EReal.zero_lt_top)
  · rw [TooLong, Single.isFinite_iff.2 ⟨s, hs⟩] at hlong
    cases hlong

theorem Denotes.tooShort_iff (h : v.Denotes a b c) :
    v.TooShort ↔ max |a| (max |b| |c|) ≤ 2 ^ (-75 : ℤ) := by
  rw [TooShort, h.lengthSquared_pos_iff, not_lt]

theorem Denotes.not_tooLong (h : v.Denotes a b c) (hle : max |a| (max |b| |c|) ≤ 2 ^ 63) :
    ¬v.TooLong := by
  rw [TooLong, h.isFinite_lengthSquared hle]
  exact fun h => Bool.noConfusion h

theorem Denotes.tooLong (h : v.Denotes a b c) (hle : 2 ^ 64 ≤ max |a| (max |b| |c|)) :
    v.TooLong :=
  Bool.eq_false_iff.2 (h.not_isFinite_lengthSquared hle)

theorem Denotes.isZero_iff_max (h : v.Denotes a b c) :
    v.isZero = true ↔ max |a| (max |b| |c|) = 0 := by
  rw [isZero_iff]
  constructor
  · intro hzero
    rw [EReal.coe_eq_zero.1 (h.x.unique hzero.x), EReal.coe_eq_zero.1 (h.y.unique hzero.y),
      EReal.coe_eq_zero.1 (h.z.unique hzero.z)]
    simp
  · intro hmax
    obtain ⟨ha, hb, hc⟩ : |a| ≤ 0 ∧ |b| ≤ 0 ∧ |c| ≤ 0 := by simpa using hmax.le
    rwa [abs_nonpos_iff.1 ha, abs_nonpos_iff.1 hb, abs_nonpos_iff.1 hc] at h

theorem Moderate.tooShort_iff (h : v.Moderate) : v.TooShort ↔ v.isZero = true := by
  obtain ⟨a, b, c, hv, -, hsize⟩ := h
  rw [hv.tooShort_iff, hv.isZero_iff_max]
  refine ⟨fun hle => hsize.resolve_right (not_lt.2 hle), fun hzero => ?_⟩
  rw [hzero]
  positivity

theorem Moderate.not_tooLong (h : v.Moderate) : ¬v.TooLong := by
  obtain ⟨a, b, c, hv, hle, -⟩ := h
  exact hv.not_tooLong hle

end Vec3

/-! ## Estimates -/

namespace Field

variable {field : Field} {p : Vec3} {step : Float32}

/-- The points that an estimate looks at. -/
def samplePoints (p : Vec3) (step : Float32) : List Vec3 :=
  corners.map (fun k => p + k.scale step) ++
    [p, p + Vec3.scale ⟨1, 0, 0⟩ step, p + Vec3.scale ⟨0, 1, 0⟩ step, p + Vec3.scale ⟨0, 0, 1⟩ step]

theorem isFinite_scale_corner {k : Vec3} (hk : k ∈ corners) {d : Float32}
    (hd : d.isFinite = true) : (k.scale d).isFinite = true := by
  have hone : (1 * d).isFinite = true :=
    Single.isFinite_mul_of_le_one (by decide +kernel) (by decide +kernel) hd
  have hneg : (-1 * d).isFinite = true := by rwa [Single.neg_mul, Single.isFinite_neg]
  simp only [corners, List.mem_cons, List.not_mem_nil, or_false] at hk
  rcases hk with rfl | rfl | rfl | rfl <;> simp [Vec3.scale, Vec3.isFinite, hone, hneg]

theorem numbers_foldl (ks : List Vec3)
    (hks : ∀ k ∈ ks, (k.scale (field (p + k.scale step))).isFinite = true) {s : Vec3}
    (hs : s.Numbers) :
    (ks.foldl (fun sum k => sum + k.scale (field (p + k.scale step))) s).Numbers := by
  induction ks generalizing s with
  | nil => exact hs
  | cons k ks ih =>
    exact ih (fun k' hk' => hks k' (.tail _ hk')) (hs.add (hks k List.mem_cons_self))

variable (hfinite : ∀ q ∈ samplePoints p step, (field q).isFinite = true)

include hfinite

theorem numbers_cornerSum : (field.cornerSum p step).Numbers := by
  refine numbers_foldl corners (fun k hk => isFinite_scale_corner hk (hfinite _ ?_))
    ⟨rfl, rfl, rfl⟩
  exact List.mem_append_left _ (List.mem_map_of_mem hk)

theorem numbers_forwardDifferences : (field.forwardDifferences p step).Numbers := by
  have hmem : ∀ q ∈ [p, p + Vec3.scale ⟨1, 0, 0⟩ step, p + Vec3.scale ⟨0, 1, 0⟩ step,
      p + Vec3.scale ⟨0, 0, 1⟩ step], (field q).isFinite = true :=
    fun q hq => hfinite q (List.mem_append_right _ hq)
  exact ⟨Single.isNaN_sub_of_isFinite (hmem _ (by simp)) (hmem _ (by simp)),
    Single.isNaN_sub_of_isFinite (hmem _ (by simp)) (hmem _ (by simp)),
    Single.isNaN_sub_of_isFinite (hmem _ (by simp)) (hmem _ (by simp))⟩

theorem isZero_estimate_iff :
    (field.estimate p step).isZero = true ↔
      (field.cornerSum p step).isFinite = true ∧ (field.cornerSum p step).TooLong ∨
      (field.cornerSum p step).TooShort ∧ ((field.forwardDifferences p step).TooShort ∨
        (field.forwardDifferences p step).TooLong) := by
  have hsum := numbers_cornerSum hfinite
  have hdiffs := numbers_forwardDifferences hfinite
  rw [estimate]
  split_ifs with hpos
  · rw [hsum.normalize_isZero_iff hpos]
    exact ⟨.inl, fun h => h.resolve_right fun hshort => hshort.1 hpos⟩
  · rw [hdiffs.normalizeOrZero_isZero_iff, Vec3.isPositiveFinite_lengthSquared_iff]
    exact ⟨fun h => .inr ⟨hpos, h⟩,
      fun h => (h.resolve_left fun hlong => hsum.not_tooShort hlong.2 hpos).2⟩

/-- **Which samples show no normal.** The estimate is zero if the sum over the corners is finite and
    too long, or else too short, and the differences that take its place are too short or too long.
    What is too short has no lane above `2 ^ -75`; what is too long has one above `2 ^ 63`, and
    every vector with a lane from `2 ^ 64` on is. Between these sizes the estimate is zero exactly
    if the sum and the differences are. -/
theorem estimate_isZero_iff :
    ((field.estimate p step).isZero = true ↔
      (field.cornerSum p step).isFinite = true ∧ (field.cornerSum p step).TooLong ∨
      (field.cornerSum p step).TooShort ∧ ((field.forwardDifferences p step).TooShort ∨
        (field.forwardDifferences p step).TooLong)) ∧
    (∀ (v : Vec3) (a b c : ℝ), v.Denotes a b c →
      (v.TooShort ↔ max |a| (max |b| |c|) ≤ 2 ^ (-75 : ℤ)) ∧
      (v.TooLong → 2 ^ 63 < max |a| (max |b| |c|)) ∧
      (2 ^ 64 ≤ max |a| (max |b| |c|) → v.TooLong)) ∧
    ((field.cornerSum p step).Moderate → (field.forwardDifferences p step).Moderate →
      ((field.estimate p step).isZero = true ↔ (field.cornerSum p step).isZero = true ∧
        (field.forwardDifferences p step).isZero = true)) := by
  have hiff := isZero_estimate_iff hfinite
  refine ⟨hiff, fun v a b c hv => ⟨hv.tooShort_iff, fun hlong => ?_, hv.tooLong⟩, ?_⟩
  · by_contra hle
    exact hv.not_tooLong (not_lt.1 hle) hlong
  · intro hsum hdiffs
    have hsum_room := hsum.not_tooLong
    have hdiffs_room := hdiffs.not_tooLong
    rw [hiff, hsum.tooShort_iff, hdiffs.tooShort_iff]
    tauto

omit hfinite

/-- A gentle slope is not flat, and neither are its samples. -/
theorem estimate_isZero_iff_slope :
    let slope := slopeX 0.25
    (∀ q ∈ samplePoints .zero 1, (slope q).isFinite = true) ∧
    (slope.cornerSum .zero 1).Moderate ∧ (slope.forwardDifferences .zero 1).Moderate ∧
    (slope.estimate .zero 1).isZero = false := by
  intro slope
  have hfinite : ∀ q ∈ samplePoints .zero 1, (slope q).isFinite = true := by decide +kernel
  have hsum : (slope.cornerSum .zero 1).Moderate :=
    ⟨1, 0, 0, ⟨Single.denotes_one.of_beq (by decide +kernel),
      Single.denotes_zero.of_beq (by decide +kernel),
      Single.denotes_zero.of_beq (by decide +kernel)⟩, by norm_num, .inr (by norm_num)⟩
  have hdiffs : (slope.forwardDifferences .zero 1).Moderate :=
    ⟨1 / 4, 0, 0, ⟨Single.denotes_quarter.of_beq (by decide +kernel),
      Single.denotes_zero.of_beq (by decide +kernel),
      Single.denotes_zero.of_beq (by decide +kernel)⟩, by norm_num, .inr (by norm_num)⟩
  obtain ⟨-, -, hmoderate⟩ := estimate_isZero_iff hfinite
  refine ⟨hfinite, hsum, hdiffs, Bool.eq_false_iff.2 fun hzero => ?_⟩
  exact absurd ((hmoderate hsum hdiffs).1 hzero).1 (by decide +kernel)

/-- A slope may be so slight that every finite point has a finite distance, and so may all samples
    differ, and yet there is no normal at the origin; the same happens on a slope that is steep. -/
theorem gradient_vanishes_on_slopes :
    let slight := slopeX (.ofBits 0x0d800000)
    let steep := slopeX (.ofBits 0x71800000)
    (∀ q : Vec3, q.isFinite = true → (slight q).isFinite = true) ∧
    ((slight.cornerSum .zero defaultStep).isZero = false ∧
      (slight.forwardDifferences .zero defaultStep).isZero = false ∧
      (slight.gradient .zero).isZero = true) ∧
    (∀ q ∈ samplePoints .zero defaultStep, (steep q).isFinite = true) ∧
    (steep.cornerSum .zero defaultStep).isZero = false ∧
    (steep.forwardDifferences .zero defaultStep).isZero = false ∧
    (steep.gradient .zero).isZero = true := by
  intro slight steep
  refine ⟨fun q hq => ?_, ⟨by decide +kernel, by decide +kernel, by decide +kernel⟩,
    by decide +kernel, by decide +kernel, by decide +kernel, by decide +kernel⟩
  rw [Vec3.isFinite, Bool.and_eq_true, Bool.and_eq_true] at hq
  exact Single.isFinite_mul_of_le_one (by decide +kernel) (by decide +kernel) hq.1.1

end Field

end SignedDistance
